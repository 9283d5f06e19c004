import Clickstream.Datum

namespace Clickstream.Datum
open Reads

/-- A relation between what is done where the reader is written in `m` and where it is written in
`n`: it holds of the steps that reading is made of, and of what is made of such steps. Nothing is
asked of what stands behind a refusal, and nothing of what is at a position where there is nothing:
no reading gets there. -/
structure Concord (m n : Type → Type) [Monad m] [LawfulMonad m] [Reads m] [Monad n]
    [LawfulMonad n] [Reads n] (R : ∀ {α : Type}, m α → n α → Prop) : Prop where
  pure : ∀ {α : Type} (a : α), R (Pure.pure a) (Pure.pure a)
  bind : ∀ {α β : Type} {p : m α} {q : n α} {f : α → m β} {g : α → n β},
    R p q → (∀ a, R (f a) (g a)) → R (p >>= f) (q >>= g)
  refuse : ∀ {α β : Type} (corruption : Corruption) (f : α → m β) (g : α → n β),
    R (refuse corruption >>= f) (refuse corruption >>= g)
  within : ∀ {α : Type} {p : m α} {q : n α} (segment : Segment),
    R p q → R (within segment p) (within segment q)
  fewer? : ∀ count : Nat, R (fewer? count) (fewer? count)
  negate : ∀ {count : Int64}, count ≠ Int64.minValue → R (negate count) (negate count)
  readByte : R readByte readByte
  readBlock : ∀ count : Nat, R (readBlock count) (readBlock count)
  readLong : R readLong readLong
  blocks : ∀ {α : Type} {item : Nat → m α} {other : Nat → n α} (width : Nat),
    (∀ position, R (item position) (other position)) →
    (∀ b, R (readTurn width item b) (readTurn width other b)) →
    R (loop (readTurn width item) (0, #[])) (loop (readTurn width other) (0, #[]))

namespace Concord

variable {m n : Type → Type} [Monad m] [LawfulMonad m] [Reads m] [Monad n] [LawfulMonad n]
  [Reads n] {R : ∀ {α : Type}, m α → n α → Prop} {α β : Type}

theorem map (h : Concord m n R) {p : m α} {q : n α} (f : α → β) (same : R p q) :
    R (f <$> p) (f <$> q) := by
  simp only [map_eq_pure_bind]
  exact h.bind same fun a => h.pure (f a)

theorem refused (h : Concord m n R) (corruption : Corruption) :
    R (Reads.refuse corruption : m α) (Reads.refuse corruption : n α) := by
  have stopped := h.refuse corruption (Pure.pure : α → m α) Pure.pure
  rwa [bind_pure, bind_pure] at stopped

theorem readBoolean (h : Concord m n R) : R Datum.readBoolean Datum.readBoolean := by
  refine h.bind h.readByte fun byte => ?_
  by_cases zero : byte = 0
  · simp only [if_pos zero]
    exact h.pure false
  by_cases one : byte = 1
  · simp only [if_neg zero, if_pos one]
    exact h.pure true
  · simp only [if_neg zero, if_neg one]
    exact h.refused _

theorem readInt (h : Concord m n R) : R Datum.readInt Datum.readInt := by
  refine h.bind h.readLong fun n => ?_
  split
  · exact h.pure _
  · exact h.refused _

theorem readBytes (h : Concord m n R) : R Datum.readBytes Datum.readBytes := by
  refine h.bind (h.bind h.readLong fun length => ?_) h.readBlock
  split
  · exact h.refused _
  · exact h.pure _

theorem readString (h : Concord m n R) : R Datum.readString Datum.readString := by
  refine h.bind h.readBytes fun bytes => ?_
  cases Utf8.decode bytes with
  | ok text => exact h.pure text
  | error fault => exact h.refused _

/-- What follows an index is asked for only behind one that points at something. -/
theorem readIndex (h : Concord m n R) (indexed : Indexed) (count : Nat) {f : UInt32 → m β}
    {g : UInt32 → n β} (next : ∀ position : UInt32, position.toNat < count →
      R (f position) (g position)) :
    R (Datum.readIndex indexed count >>= f) (Datum.readIndex indexed count >>= g) := by
  simp only [Datum.readIndex, bind_assoc]
  refine h.bind h.readLong fun index => ?_
  by_cases near : 0 ≤ index.toInt ∧ index.toInt < 0x1_0000_0000 ∧ index.toInt < count
  · simp only [if_pos near, pure_bind]
    refine next _ ?_
    have clamp := Int64.toNat_toInt index
    rw [UInt32.toNat_ofNat']
    omega
  · simp only [if_neg near]
    exact h.refuse _ f g

theorem readCount (h : Concord m n R) : R Datum.readCount Datum.readCount := by
  refine h.bind h.readLong fun count => ?_
  by_cases sign : 0 ≤ count
  · simp only [if_pos sign]
    exact h.pure _
  simp only [if_neg sign]
  refine h.bind h.readLong fun _ => ?_
  by_cases least : count = Int64.minValue
  · simp only [if_pos least]
    exact h.refused _
  · simp only [if_neg least]
    exact h.bind (h.negate least) fun count => h.pure _

theorem checkCount (h : Concord m n R) (width done count : Nat) :
    R (Datum.checkCount width done count) (Datum.checkCount width done count) := by
  unfold Datum.checkCount
  by_cases zero : width = 0
  · simp only [if_pos zero]
    split
    · exact h.refused _
    · exact h.pure ()
  · simp only [if_neg zero]
    refine h.bind (h.fewer? _) fun available => ?_
    cases available with
    | none => exact h.pure ()
    | some available => exact h.refused _

section Collections

variable {item : Nat → m α} {other : Nat → n α}

theorem readItems (h : Concord m n R) (items : ∀ position, R (item position) (other position))
    (count : Nat) (done : Array α) :
    R (Datum.readItems item count done) (Datum.readItems other count done) := by
  induction count generalizing done with
  | zero => exact h.pure done
  | succ count ih => exact h.bind (items done.size) fun value => ih (done.push value)

theorem readTurn (h : Concord m n R) (items : ∀ position, R (item position) (other position))
    (width : Nat) (b : Nat × Array α) :
    R (Datum.readTurn width item b) (Datum.readTurn width other b) := by
  obtain ⟨weightless, done⟩ := b
  refine h.bind h.readCount fun count => ?_
  by_cases none : count = 0
  · simp only [if_pos none]
    exact h.pure _
  · simp only [if_neg none]
    refine h.bind (h.checkCount width weightless count) fun _ => ?_
    exact h.bind (h.readItems items count done) fun done => h.pure _

theorem readCollection (h : Concord m n R)
    (items : ∀ position, R (item position) (other position)) (width : Nat) :
    R (Datum.readCollection width item) (Datum.readCollection width other) :=
  h.bind (h.blocks width items (h.readTurn items width)) fun items => h.pure items.toList

end Collections

mutual

/-- What holds of the steps of reading holds of reading a value of any schema. -/
theorem read (h : Concord m n R) (schema : Schema) : R (Datum.read schema) (Datum.read schema) := by
  match schema with
  | .null => exact h.pure _
  | .boolean => exact h.map _ h.readBoolean
  | .int => exact h.map _ h.readInt
  | .long => exact h.map _ h.readLong
  | .float => exact h.map _ (h.readBlock 4)
  | .double => exact h.map _ (h.readBlock 8)
  | .bytes => exact h.map _ h.readBytes
  | .string => exact h.map _ h.readString
  | .array item =>
    have one (position : Nat) := h.within (.index position) (h.read item)
    exact h.map _ (h.readCollection one item.minWidth)
  | .map schema =>
    refine h.map _ (h.readCollection (fun _ => ?_) _)
    refine h.bind h.readString fun key => ?_
    exact h.bind (h.within (.key key) (h.read schema)) fun value => h.pure (key, value)
  | .union branches =>
    refine h.readIndex .branch branches.length fun position inside => ?_
    exact h.map _ (h.within _ (h.branch branches position.toNat inside))
  | .enum _ symbols =>
    have one := h.readIndex .symbol symbols.length fun position _ => h.pure (Value.enum position)
    rwa [bind_pure_comp, bind_pure_comp] at one
  | .fixed _ size => exact h.map _ (h.readBlock size)
  | .record _ fields => exact h.map _ (h.readFields fields)

theorem branch (h : Concord m n R) (branches : List Schema) (position : Nat)
    (inside : position < branches.length) {missing : m Value} {absent : n Value} :
    R ((Datum.branch? branches position).getD missing)
      ((Datum.branch? branches position).getD absent) := by
  match branches, position with
  | schema :: _, 0 => exact h.read schema
  | _ :: rest, position + 1 => exact h.branch rest position (Nat.lt_of_succ_lt_succ inside)

theorem readFields (h : Concord m n R) (fields : List (String × Schema)) :
    R (Datum.readFields fields) (Datum.readFields fields) := by
  match fields with
  | [] => exact h.pure []
  | (name, schema) :: rest =>
    refine h.bind (h.within (.field name) (h.read schema)) fun value => ?_
    exact h.bind (h.readFields rest) fun values => h.pure (value :: values)

end

end Concord

end Clickstream.Datum

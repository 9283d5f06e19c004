import Clickstream.Proofs.Concord
import Clickstream.Proofs.Written
import Clickstream.Wire.Stepwise

namespace Clickstream.Wire.Stepwise
open Datum Machine Varint

section Scratch

variable {σ : Type}

theorem take_set_succ {α : Type} {cells : List α} {position : Nat} (value : α)
    (h : position < cells.length) :
    (cells.set position value).take (position + 1) = cells.take position ++ [value] := by
  rw [List.take_add_one, List.take_set_of_le (Nat.le_refl _), List.getElem?_set_self h]
  rfl

theorem storeGroup_eq {scratch : List UInt8} {length : Nat} (code : UInt64) (sink : σ)
    (room : length < scratch.length) (small : scratch.length ≤ 10) :
    storeGroup (scratch, length, code) sink =
      if code >>> 7 = 0 then
        .ok (.inr (scratch.set length (code &&& 0x7f).toUInt8, length + 1)) sink
      else .ok (.inl (scratch.set length ((code &&& 0x7f).toUInt8 ||| 0x80), length + 1,
        code >>> 7)) sink := by
  have shifted : (shift (code >>> .ofNat ·) 7 : Writer σ UInt64) = pure (code >>> 7) :=
    shift_eq _ (by decide)
  have counted : (add Size.largest length 1 : Writer σ Nat) = pure (length + 1) :=
    add_eq (by simp only [Size.largest]; omega)
  simp only [storeGroup, shifted, pure_bind, store_eq _ room, counted]
  split <;> rfl

/-- The loop gathers groups behind what is stored already. -/
def Gathers (scratch : List UInt8) (length : Nat) (code : UInt64) (gathered : List UInt8) : Prop :=
  ∀ sink : σ, ∃ stored count,
    loop (fun (_, _, code) _ => code.toNat) storeGroup (scratch, length, code) sink =
      .ok (stored, count) sink ∧
    count ≤ stored.length ∧ stored.take count = scratch.take length ++ gathered

theorem gathers_last {scratch : List UInt8} {length : Nat} {code : UInt64}
    (room : length < scratch.length) (small : scratch.length ≤ 10) (last : code >>> 7 = 0) :
    Gathers (σ := σ) scratch length code [(code &&& 0x7f).toUInt8] := by
  intro sink
  have turn := storeGroup_eq code sink room small
  rw [if_pos last] at turn
  exact ⟨_, _, loop_done turn, by rwa [List.length_set], take_set_succ _ room⟩

/-- As many cells as there may be groups are enough for them. -/
theorem gathers_groups (free length : Nat) {scratch : List UInt8} {code : UInt64}
    (cells : scratch.length = length + (free + 1)) (small : scratch.length ≤ 10)
    (fits : code.toNat < 128 ^ (free + 1)) :
    Gathers (σ := σ) scratch length code (groups (free + 1) code) := by
  have room : length < scratch.length := by omega
  by_cases last : code >>> 7 = 0
  · have out : groups (free + 1) code = [(code &&& 0x7f).toUInt8] := if_pos last
    rw [out]
    exact gathers_last room small last
  · have high := high_groups code
    have some : (code >>> 7).toNat ≠ 0 := fun none => last (UInt64.toNat_inj.mp none)
    cases free with
    | zero => omega
    | succ free =>
      intro sink
      have turn := storeGroup_eq code sink room small
      rw [if_neg last] at turn
      have less : (code >>> 7).toNat < code.toNat := by omega
      have out : groups (free + 1 + 1) code = ((code &&& 0x7f).toUInt8 ||| 0x80) ::
        groups (free + 1) (code >>> 7) := if_neg last
      have same : (scratch.set length ((code &&& 0x7f).toUInt8 ||| 0x80)).length = scratch.length :=
        List.length_set
      have below : (code >>> 7).toNat < 128 ^ (free + 1) := by
        rw [high]
        rw [Nat.pow_succ] at fits
        omega
      obtain ⟨stored, count, run, inside, taken⟩ :=
        gathers_groups free (length + 1) (by omega) (same ▸ small) below sink
      refine ⟨stored, count, (loop_next turn less).trans run, inside, ?_⟩
      rw [taken, take_set_succ _ room, List.append_assoc, out, List.singleton_append]
termination_by free

end Scratch

section Writing

variable {σ : Type}

theorem gather_eq (n : Int64) : (gather n : Writer σ (List UInt8)) = pure (Varint.encode n) := by
  funext sink
  have twice : (shift (n <<< .ofNat ·) 1 : Writer σ Int64) = pure (n <<< 1) :=
    shift_eq _ (by decide)
  have sign : (shift (n >>> .ofNat ·) 63 : Writer σ Int64) = pure (n >>> 63) :=
    shift_eq _ (by decide)
  have top := (zigzag n).toNat_lt
  have cells : (List.replicate 10 (0 : UInt8)).length = 0 + (9 + 1) := rfl
  obtain ⟨stored, count, run, inside, taken⟩ :=
    gathers_groups 9 0 cells (by decide) (show (zigzag n).toNat < 128 ^ (9 + 1) by omega) sink
  have code : (n <<< 1 ^^^ n >>> 63).toUInt64 = zigzag n := rfl
  simp only [gather, twice, sign, pure_bind, code]
  simp only [Bind.bind, EStateM.bind, run]
  rw [front_eq inside, taken]
  rfl

variable [Sink σ]

theorem within_plain (segment : Segment) (step : Clickstream.Writer σ Unit) :
    (Writes.within segment (plain step) : Writer σ Unit) =
      plain (Writes.within segment step) := by
  funext sink
  simp only [plain, Writes.within, Writer.within, inside]
  cases step sink <;> rfl

theorem writeLong_eq (n : Int64) :
    (Datum.writeLong n : Writer σ Unit) = plain (Datum.writeLong n) := by
  have gathered : (Writes.code n : Writer σ (List UInt8)) = pure (Varint.encode n) := gather_eq n
  rw [Datum.writeLong, gathered, pure_bind]
  rfl

theorem writeBytes_eq (data : List UInt8) :
    (writeBytes data : Writer σ Unit) = plain (writeBytes data) := by
  simp only [writeBytes, writeLength, plain_bind, writeLong_eq]
  rfl

theorem writeCollection_eq (length : Nat) {items : Writer σ Unit}
    {plainly : Clickstream.Writer σ Unit} (h : items = plain plainly) :
    writeCollection length items = plain (writeCollection length plainly) := by
  subst h
  by_cases none : length = 0
  · simp only [writeCollection, if_pos none, writeLong_eq]
  · simp only [writeCollection, if_neg none, writeLength, plain_bind, writeLong_eq]

/-- No number of an item is beyond the largest, however many items are left. -/
theorem write_eq :
    (∀ schema value, value.Countable →
      (Datum.write schema value : Writer σ Unit) = plain (Datum.write schema value)) ∧
    (∀ fields values, Value.CountableItems values →
      (writeFields fields values : Writer σ Unit) = plain (writeFields fields values)) ∧
    (∀ schema entries, Value.CountableEntries entries →
      (writeEntries schema entries : Writer σ Unit) = plain (writeEntries schema entries)) ∧
    (∀ item position items, Value.CountableItems items → position + items.length ≤ Size.largest →
      (writeItems item position items : Writer σ Unit) =
        plain (writeItems item position items)) := by
  refine Datum.write.mutual_induct _ _ _ _
    ?null ?boolean ?int ?long ?float ?double ?bytes ?string ?array ?map ?union ?noBranch
    ?noSymbol ?enum ?wrongSize ?fixed ?wrongArity ?record ?wrongKind
    ?fields ?noFields ?noItems ?items ?noEntries ?entries
  case null => exact fun _ => rfl
  case boolean => exact fun _ _ => rfl
  case int => exact fun _ _ => writeLong_eq _
  case long => exact fun _ _ => writeLong_eq _
  case float => exact fun _ _ => rfl
  case double => exact fun _ _ => rfl
  case bytes => exact fun _ _ => writeBytes_eq _
  case string => exact fun _ _ => writeBytes_eq _
  case array =>
    intro item items ih countable
    have short := countable.1
    exact writeCollection_eq _ (ih countable.2 (by simp only [Size.largest]; omega))
  case map => exact fun _ _ ih countable => writeCollection_eq _ (ih countable.2)
  case union =>
    intro branches branch value schema found ih countable
    simp only [Datum.write, found, ih countable, plain_bind, writeLong_eq, within_plain]
  case noBranch => intro _ _ _ absent _; simp only [Datum.write, absent]; rfl
  case noSymbol => intro _ _ _ absent _; simp only [Datum.write, if_pos absent]; rfl
  case enum => intro _ _ _ present _; simp only [Datum.write, if_neg present, writeLong_eq]
  case wrongSize => intro _ _ _ wrong _; simp only [Datum.write, if_pos wrong]; rfl
  case fixed => intro _ _ _ right _; simp only [Datum.write, if_neg right]; rfl
  case wrongArity => intro _ _ _ wrong _; simp only [Datum.write, if_pos wrong]; rfl
  case record =>
    intro _ _ _ right ih countable
    simp only [Datum.write, if_neg right, ih countable]
  case wrongKind =>
    intro schema value
    intros
    rw [Datum.write, Datum.write]
    · rfl
    all_goals assumption
  case fields =>
    intro _ _ _ _ _ ih rest countable
    simp only [writeFields, ih countable.1, rest countable.2, plain_bind, within_plain]
  case noFields =>
    intros
    rw [writeFields, writeFields]
    · rfl
    all_goals assumption
  case noItems => exact fun _ _ _ _ => rfl
  case items =>
    intro item position value rest ih others countable small
    rw [List.length_cons] at small
    have next : (Writes.next position : Writer σ Nat) = pure (position + 1) :=
      add_eq (show position + 1 ≤ Size.largest by omega)
    have behind := others (position + 1) countable.2 (by omega)
    rw [writeItems_cons, plain_bind]
    simp only [writeItems, next, pure_bind, ih countable.1, behind, within_plain]
    rfl
  case noEntries => exact fun _ _ => rfl
  case entries =>
    intro _ _ _ _ ih rest countable
    simp only [writeEntries, ih countable.1, rest countable.2, plain_bind, writeBytes_eq,
      within_plain]

end Writing

section Reading

variable {α β : Type}

theorem require_ok {count : Nat} {input : List UInt8} (enough : count ≤ input.length) :
    (require count : Reader Unit) input = .ok () input := by
  have inside : ¬ Source.remaining input < count := Nat.not_lt_of_le enough
  simp only [require, Bind.bind, EStateM.bind, Reads.fewer?, if_neg inside]
  rfl

theorem require_short {count : Nat} {input : List UInt8} (short : input.length < count) :
    (require count : Reader Unit) input =
      .error (.fault (.here (.truncated count input.length))) input := by
  have beyond : Source.remaining input < count := short
  simp only [require, Bind.bind, EStateM.bind, Reads.fewer?, if_pos beyond]
  rfl

theorem readByte_eq : (readByte : Reader UInt8) = plain readByte := by
  funext input
  cases input with
  | nil => exact bind_failed (require_short Nat.one_pos) _
  | cons byte rest =>
    have enough : 1 ≤ (byte :: rest).length := Nat.le_add_left 1 rest.length
    obtain ⟨_, given, rfl, -⟩ := Source.lawful_bytes.next_some (byte :: rest) rfl
    rw [readByte, bind_ok (require_ok enough), plain_ok (readByte_cons byte _)]
    simp only [Reads.byte, given]

theorem readBlock_eq (count : Nat) :
    (readBlock count : Reader (List UInt8)) = plain (readBlock count) := by
  funext input
  by_cases short : input.length < count
  · rw [plain_error (readBlock_short short)]
    exact bind_failed (require_short short) _
  · have enough := Nat.le_of_not_lt short
    obtain ⟨_, given, rfl, -⟩ := Source.lawful_bytes.copy_some input enough
    rw [readBlock, bind_ok (require_ok enough), plain_ok (readBlock_enough enough)]
    simp only [Reads.copy, given]

/-- Turns are taken as they are taken plainly, as long as each one takes a byte. -/
theorem loop_turns (fits : β → Prop) {turn : β → Reader (β ⊕ α)}
    {plainly : β → Clickstream.Reader (β ⊕ α)} (same : ∀ b, fits b → turn b = plain (plainly b))
    (eats : ∀ b input next rest, fits b → plainly b input = .ok (.inl next) rest →
      fits next ∧ rest.length < input.length)
    (starves : ∀ b, plainly b [] = .error (.here (.truncated 1 0)) []) {bound input : List UInt8}
    (enough : input.length ≤ bound.length) {b : β} (fit : fits b) :
    loop (fun _ input => Source.remaining input) turn b input =
      plain (Reader.turns plainly bound b) input := by
  -- A turn takes one entry of the bound and one byte at least, so the bytes do not outlast it.
  induction bound generalizing input b with
  | nil =>
    obtain rfl := List.length_eq_zero_iff.mp (Nat.le_zero.mp enough)
    have turned := same b fit ▸ plain_error (starves b)
    exact loop_failed turned
  | cons _ bound ih =>
    have turned : turn b input = plain (plainly b) input := by rw [same b fit]
    rw [Reader.turns, plain_bind]
    cases found : plainly b input with
    | error fault rest =>
      rw [plain_error found] at turned
      rw [loop_failed turned, bind_failed (plain_error found)]
    | ok outcome rest =>
      rw [plain_ok found] at turned
      rw [bind_ok (plain_ok found)]
      cases outcome with
      | inr value => exact loop_done turned
      | inl next =>
        obtain ⟨fit, less⟩ := eats b input next rest fit found
        rw [List.length_cons] at enough
        exact (loop_next turned less).trans (ih (by omega) fit)

/-- The amount of a shift stays below the size of the word. -/
theorem readGroup_eq {k : Nat} (small : k ≤ 9) (code : UInt64) :
    (readGroup (7 * k, code) : Reader _) = plain (readGroup (7 * k, code)) := by
  have shifted (byte : UInt8) :
      (Reads.shift ((byte &&& 0x7f).toUInt64 <<< .ofNat ·) (7 * k) : Reader UInt64) =
        plain (Reads.shift ((byte &&& 0x7f).toUInt64 <<< .ofNat ·) (7 * k)) := shift_eq _ (by omega)
  have counted : (Reads.add (7 * k) 7 : Reader Nat) = plain (Reads.add (7 * k) 7) :=
    add_eq (by omega)
  simp only [readGroup, plain_bind, readByte_eq]
  refine bind_congr fun byte => ?_
  by_cases tenth : 7 * k = 63 ∧ 1 < byte
  · simp only [if_pos tenth]
    rfl
  simp only [if_neg tenth, plain_bind, shifted]
  refine bind_congr fun group => ?_
  by_cases last : byte < 0x80
  · simp only [if_pos last]
    rfl
  · simp only [if_neg last, plain_bind, counted]
    rfl

/-- Behind a group that is not the last there is room for another one in the word. -/
theorem readGroup_next {k : Nat} (small : k ≤ 9) {code : UInt64} {next : Nat × UInt64}
    {input rest : List UInt8}
    (turned : (readGroup (7 * k, code) : Clickstream.Reader _) input = .ok (.inl next) rest) :
    (∃ k ≤ 9, next.1 = 7 * k) ∧ rest.length < input.length := by
  cases input with
  | nil => cases turned
  | cons byte tail =>
    by_cases tenth : k = 9 ∧ 1 < byte.toNat
    · rw [readGroup_tenth tenth] at turned
      cases turned
    rw [readGroup_cons tenth] at turned
    by_cases last : byte < 0x80
    · rw [if_pos last] at turned
      cases turned
    rw [if_neg last] at turned
    cases turned
    rw [UInt8.lt_iff_toNat_lt] at last
    simp only [UInt8.reduceToNat] at last
    exact ⟨⟨k + 1, by omega, rfl⟩, by simp⟩

/-- Ten groups are read at most, so no group is shifted out of the word. -/
theorem loop_readGroup : (Reads.loop readGroup (0, 0) : Reader UInt64) =
    plain (readGroups 0 0) := by
  funext input
  have start : ∃ k ≤ 9, (0, (0 : UInt64)).1 = 7 * k := ⟨0, Nat.zero_le 9, rfl⟩
  have starves (b : Nat × UInt64) : (readGroup b : Clickstream.Reader _) [] =
    .error (.here (.truncated 1 0)) [] := rfl
  apply loop_turns (fun b : Nat × UInt64 => ∃ k ≤ 9, b.1 = 7 * k) ?same ?eats starves
    (Nat.le_refl _) start
  case same =>
    intro b fits
    obtain ⟨_, code⟩ := b
    obtain ⟨k, small, rfl⟩ := fits
    exact readGroup_eq small code
  case eats =>
    intro b input next rest fits turned
    obtain ⟨_, code⟩ := b
    obtain ⟨k, small, rfl⟩ := fits
    exact readGroup_next small turned

/-- The last bit of a code is all that is negated. -/
theorem unzigzag_eq (code : UInt64) : (do
      let half ← Reads.shift (code >>> .ofNat ·) 1
      let sign ← Reads.negate (code &&& 1).toInt64
      return half.toInt64 ^^^ sign : Reader Int64) = pure (unzigzag code) := by
  have half : (Reads.shift (code >>> .ofNat ·) 1 : Reader UInt64) = pure (code >>> 1) :=
    shift_eq _ (by decide)
  have bit : (code &&& 1).toInt64 ≠ Int64.minValue := by
    intro least
    have bit : (code &&& 1).toNat = code.toNat % 2 := by
      rw [UInt64.toNat_and]
      exact Nat.and_one_is_mod _
    have same := congrArg (fun n => n.toUInt64.toNat) least
    have top : Int64.minValue.toUInt64.toNat = 2 ^ 63 := rfl
    simp only [UInt64.toUInt64_toInt64, bit, top] at same
    omega
  have sign : (Reads.negate (code &&& 1).toInt64 : Reader Int64) = pure (-(code &&& 1).toInt64) :=
    negate_eq bit
  simp only [half, sign, pure_bind]
  rfl

theorem readLong_eq : (Datum.readLong : Reader Int64) = plain Datum.readLong := by
  have plainly : (Datum.readLong : Clickstream.Reader Int64) = unzigzag <$> readGroups 0 0 := rfl
  rw [plainly, plain_map, map_eq_pure_bind, Datum.readLong, loop_readGroup]
  exact bind_congr unzigzag_eq

/-- A step that leaves no more than there was. -/
def Shortens (step : Clickstream.Reader α) : Prop :=
  ∀ input value rest, step input = .ok value rest → rest.length ≤ input.length

theorem shortens_of_exact {step : Clickstream.Reader α} {grammar : Grammar α}
    (h : Reader.Exact step grammar) : Shortens step := by
  intro input value rest read
  obtain ⟨taken, rfl, -⟩ := (h input value rest).mp read
  simp

theorem Shortens.bind {first : Clickstream.Reader α} {second : α → Clickstream.Reader β}
    (h : Shortens first) (k : ∀ a, Shortens (second a)) : Shortens (first >>= second) := by
  intro input value rest read
  obtain ⟨a, mid, one, two⟩ := Reader.bind_ok_iff.mp read
  exact Nat.le_trans (k a mid value rest two) (h input a mid one)

theorem Shortens.readItems {item : Nat → Clickstream.Reader α}
    (h : ∀ position, Shortens (item position)) (count : Nat) (done : Array α) :
    Shortens (readItems item count done) := by
  induction count generalizing done with
  | zero => exact shortens_of_exact (Reader.Exact.pure done)
  | succ count ih => exact (h done.size).bind fun value => ih (done.push value)

theorem Shortens.turns {turn : β → Clickstream.Reader (β ⊕ α)} (h : ∀ b, Shortens (turn b))
    (bound : List UInt8) (b : β) : Shortens (Reader.turns turn bound b) := by
  induction bound generalizing b with
  | nil => exact shortens_of_exact (Reader.Exact.refuse _)
  | cons _ bound ih =>
    refine (h b).bind fun outcome => ?_
    cases outcome with
    | inl next => exact ih next
    | inr value => exact shortens_of_exact (Reader.Exact.pure value)

/-- A block takes the byte of its count at least. -/
theorem readTurn_less {width : Nat} {item : Nat → Clickstream.Reader α}
    (items : ∀ position, Shortens (item position)) {b next : Nat × Array α}
    {input rest : List UInt8} (turned : readTurn width item b input = .ok (.inl next) rest) :
    rest.length < input.length := by
  obtain ⟨weightless, done⟩ := b
  obtain ⟨count, mid, counted, behind⟩ := Reader.bind_ok_iff.mp turned
  obtain ⟨head, rfl, block⟩ := (readCount_exact _ _ _).mp counted
  have taken : 0 < head.length := by
    rcases block with ⟨-, codes⟩ | block
    · exact codes.groups.pos
    · exact block.pos.1
  by_cases none : count = 0
  · rw [if_pos none] at behind
    cases behind
  rw [if_neg none] at behind
  obtain ⟨_, _, checked, body⟩ := Reader.bind_ok_iff.mp behind
  obtain ⟨rfl, -⟩ := checkCount_ok_iff.mp checked
  obtain ⟨all, _, read, last⟩ := Reader.bind_ok_iff.mp body
  have left := Shortens.readItems items count done _ all _ read
  cases last
  rw [List.length_append]
  omega

/-- A step that does what another one does plainly, which leaves no more than there was. -/
structure Follows (step : Reader α) (plainly : Clickstream.Reader α) : Prop where
  same : step = plain plainly
  shortens : Shortens plainly

theorem Follows.bind {first : Reader α} {second : α → Reader β}
    {plainly : Clickstream.Reader α} {others : α → Clickstream.Reader β} (h : Follows first plainly)
    (k : ∀ a, Follows (second a) (others a)) : Follows (first >>= second) (plainly >>= others) where
  same := by
    rw [plain_bind, h.same]
    exact bind_congr fun a => (k a).same
  shortens := h.shortens.bind fun a => (k a).shortens

theorem Follows.within {step : Reader α} {plainly : Clickstream.Reader α} (segment : Segment)
    (h : Follows step plainly) :
    Follows (Reads.within segment step) (Reads.within segment plainly) where
  same := by
    rw [h.same]
    funext input
    simp only [plain, Reads.within, Reader.within, inside]
    cases plainly input <;> rfl
  shortens input value rest read :=
    h.shortens input value rest (Reader.within_ok_iff.mp read)

theorem Follows.fewer? (count : Nat) :
    Follows (Reads.fewer? count) (Reads.fewer? count : Clickstream.Reader (Option Nat)) where
  same := by
    funext input
    by_cases short : input.length < count
    · have shorter := (shorterThan_iff input count).mpr short
      have beyond : Source.remaining input < count := short
      simp only [plain, Reads.fewer?, Reader.fewer?, if_pos shorter, if_pos beyond]
      rfl
    · have longer := mt (shorterThan_iff input count).mp short
      have inside : ¬ Source.remaining input < count := short
      simp only [plain, Reads.fewer?, Reader.fewer?, if_neg longer, if_neg inside]
  shortens input value rest read := by
    cases read
    exact Nat.le_refl _

theorem Follows.blocks {item : Nat → Reader α} {other : Nat → Clickstream.Reader α} (width : Nat)
    (items : ∀ position, Follows (item position) (other position))
    (turns : ∀ b, Follows (readTurn width item b) (readTurn width other b)) :
    Follows (Reads.loop (readTurn width item) (0, #[]))
      (Reads.loop (readTurn width other) (0, #[])) where
  same := by
    funext input
    have eats (b : Nat × Array α) (input : List UInt8) (next : Nat × Array α) (rest : List UInt8)
        (_ : True) (turned : readTurn width other b input = .ok (.inl next) rest) :
        True ∧ rest.length < input.length :=
      ⟨trivial, readTurn_less (fun position => (items position).shortens) turned⟩
    exact loop_turns (fun _ => True) (fun b _ => (turns b).same) eats (fun _ => rfl)
      (Nat.le_refl _) trivial
  shortens input := Shortens.turns (fun b => (turns b).shortens) input (0, #[]) input

/-- Each step of reading has an answer, and so has each turn. -/
theorem concord : Concord Reader Clickstream.Reader Follows where
  pure a := ⟨rfl, shortens_of_exact (Reader.Exact.pure a)⟩
  bind := Follows.bind
  refuse _ _ _ := ⟨rfl, fun _ _ _ refused => nomatch refused⟩
  within := Follows.within
  fewer? := Follows.fewer?
  negate other := ⟨negate_eq other, shortens_of_exact (Reader.Exact.pure _)⟩
  readByte := ⟨readByte_eq, shortens_of_exact Reader.Exact.readByte⟩
  readBlock count := ⟨readBlock_eq count, shortens_of_exact (Reader.Exact.readBlock count)⟩
  readLong := ⟨readLong_eq, shortens_of_exact readLong_exact⟩
  blocks := Follows.blocks

theorem read_eq (schema : Schema) : read schema = plain (Wire.read schema) :=
  (concord.read schema).same

theorem decode_eq (schema : Schema) (bytes : List UInt8) :
    decode schema bytes = (Wire.decode schema bytes).mapError .fault := by
  simp only [decode, Wire.decode, read_eq, plain]
  cases Wire.read schema bytes with
  | ok value rest => cases rest <;> rfl
  | error => rfl

end Reading

/-- Down to the single operation there is an answer for all that writing and reading come upon:
no index is beyond its end, no shift as wide as the word, nothing is read past the end, and every
loop comes to its end. What is wrong with a value or with bytes is told as a fault. -/
theorem trap_free :
    (∀ (σ : Type) [Sink σ] schema value, value.Countable →
      (write schema value : Writer σ Unit) = plain (Wire.write schema value) ∧
      ∀ (sink after : σ) trap, write schema value sink ≠ .error (.trap trap) after) ∧
    (∀ schema, read schema = plain (Wire.read schema) ∧
      ∀ input rest trap, read schema input ≠ .error (.trap trap) rest) ∧
    (∀ schema bytes, decode schema bytes = (Wire.decode schema bytes).mapError .fault ∧
      ∀ trap, decode schema bytes ≠ .error (.trap trap)) := by
  refine ⟨fun σ _ schema value countable => ?_, fun schema => ?_, fun schema bytes => ?_⟩
  · have same : (write schema value : Writer σ Unit) = plain (Wire.write schema value) :=
      write_eq.1 schema value countable
    exact ⟨same, fun sink after trap => same ▸ plain_ne_trap _ sink after trap⟩
  · have same := read_eq schema
    exact ⟨same, fun input rest trap => same ▸ plain_ne_trap _ input rest trap⟩
  · have same := decode_eq schema bytes
    refine ⟨same, fun trap trapped => ?_⟩
    rw [same] at trapped
    cases found : Wire.decode schema bytes with
    | ok value =>
      rw [found] at trapped
      exact nomatch trapped
    | error fault =>
      rw [found] at trapped
      have same : Failure.fault fault = .trap trap := Except.error.inj trapped
      contradiction

end Clickstream.Wire.Stepwise

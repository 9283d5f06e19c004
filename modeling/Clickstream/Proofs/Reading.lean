import Clickstream.Proofs.Scalars

namespace Clickstream.Wire
open Datum Reader Varint

theorem eq_minValue_iff {count : Int64} : count = Int64.minValue ↔ count.toInt = -2 ^ 63 := by
  rw [← Int64.toInt_inj, Int64.toInt_minValue]

theorem natAbs_of_nonneg {count : Int64} (sign : 0 ≤ count.toInt) :
    count.toNatClampNeg = count.toInt.natAbs := by
  have clamp := Int64.toNat_toInt count
  omega

/-- The least number of all has no opposite. -/
theorem natAbs_of_neg {count : Int64} (sign : count.toInt < 0) (least : count.toInt ≠ -2 ^ 63) :
    (-count).toNatClampNeg = count.toInt.natAbs := by
  have bound := count.le_toInt
  have clamp := Int64.toNat_toInt (-count)
  have negated : (-count).toInt = -count.toInt := by
    rw [Int64.toInt_neg, Int.bmod_eq_of_le] <;> omega
  omega

/-- What follows a negative count is read and not looked at. -/
theorem readBlockSize_exact {count : Int64} (sign : count.toInt < 0) :
    Exact (do
      let _size ← readLong
      if count = Int64.minValue then refuse .countRange else return (-count).toNatClampNeg)
      fun taken n => (∃ size : Int64, Codes taken size.toInt) ∧ count.toInt ≠ -2 ^ 63 ∧
        n = count.toInt.natAbs := by
  refine (readLong_exact.check (fun _ n => count.toInt ≠ -2 ^ 63 ∧ n = count.toInt.natAbs) ?_).congr
    fun taken n => ?_
  · intro size _ _
    by_cases least : count = Int64.minValue
    · rw [if_pos least]
      refine (Exact.refuse _).congr fun taken n => ?_
      simp [eq_minValue_iff.mp least]
    · rw [if_neg least]
      rw [eq_minValue_iff] at least
      refine (Exact.pure _).congr fun taken n => ?_
      rw [natAbs_of_neg sign least]
      simp only [ne_eq, least, not_false_eq_true, true_and]
  · simp only [exists_and_right]

theorem readCount_exact :
    Exact readCount fun taken count => (count = 0 ∧ Codes taken 0) ∨ BlockCount taken count := by
  refine (readLong_exact.bind (fun (count : Int64) taken n => n = count.toInt.natAbs ∧
    ((0 ≤ count.toInt ∧ taken = []) ∨
      (count.toInt < 0 ∧ count.toInt ≠ -2 ^ 63 ∧ ∃ size : Int64, Codes taken size.toInt))) ?_).congr
    fun taken n => ?_
  · intro count front _
    have zero : 0 ≤ count ↔ 0 ≤ count.toInt := Int64.le_iff_toInt_le
    by_cases sign : 0 ≤ count
    · rw [if_pos sign]
      rw [zero] at sign
      refine (Exact.pure _).congr fun taken n => ?_
      rw [natAbs_of_nonneg sign]
      constructor
      · intro h
        obtain ⟨rfl, rfl⟩ := h
        exact ⟨rfl, .inl ⟨sign, rfl⟩⟩
      · intro h
        obtain ⟨rfl, ⟨-, rfl⟩ | ⟨negative, -⟩⟩ := h
        · exact ⟨rfl, rfl⟩
        · omega
    · rw [if_neg sign]
      rw [zero] at sign
      refine (readBlockSize_exact (by omega)).congr fun taken n => ?_
      constructor
      · intro h
        obtain ⟨size, least, rfl⟩ := h
        exact ⟨rfl, .inr ⟨by omega, least, size⟩⟩
      · intro h
        obtain ⟨rfl, ⟨positive, -⟩ | ⟨-, least, size⟩⟩ := h
        · exact absurd positive sign
        · exact ⟨size, least, rfl⟩
  · constructor
    · intro h
      obtain ⟨front, back, count, rfl, codes, rfl, ⟨sign, rfl⟩ | ⟨sign, least, size, ignored⟩⟩ := h
      · rw [List.append_nil]
        rcases Int.lt_or_eq_of_le sign with positive | zero
        · exact .inr (.plain codes positive)
        · rw [← zero] at codes ⊢
          exact .inl ⟨rfl, codes⟩
      · exact .inr (.sized codes sign least ignored)
    · intro h
      rcases h with ⟨rfl, codes⟩ | block
      · obtain ⟨count, same⟩ := codes.exists_toInt
        exact ⟨taken, [], count, by simp, same ▸ codes, by omega, .inl ⟨by omega, rfl⟩⟩
      · cases block with
        | plain codes sign =>
          obtain ⟨count, same⟩ := codes.exists_toInt
          exact ⟨taken, [], count, by simp, same ▸ codes, by omega, .inl ⟨by omega, rfl⟩⟩
        | sized codes sign least ignored =>
          obtain ⟨count, same⟩ := codes.exists_toInt
          obtain ⟨size, any⟩ := ignored.exists_toInt
          exact ⟨_, _, count, rfl, same ▸ codes, by omega,
            .inr ⟨by omega, by omega, size, any ▸ ignored⟩⟩

theorem checkCount_ok_iff {width done count : Nat} {input rest : List UInt8} :
    checkCount width done count input = .ok () rest ↔ rest = input ∧
      (width = 0 → done + count ≤ zeroWidthLimit) ∧
      (width ≠ 0 → Size.mul count width ≤ input.length) := by
  have short := shorterThan_iff input (Size.mul count width)
  by_cases zero : width = 0
  · subst zero
    rw [checkCount_zero]
    by_cases many : zeroWidthLimit < done + count
    · simp only [if_pos many, reduceCtorEq, false_iff]
      intro h
      obtain ⟨-, few, -⟩ := h
      have := few trivial
      omega
    · simp only [if_neg many, EStateM.Result.ok.injEq, true_and]
      constructor
      · intro h
        subst h
        exact ⟨rfl, fun _ => by omega, fun wide => absurd rfl wide⟩
      · intro h
        obtain ⟨rfl, -⟩ := h
        rfl
  · rw [checkCount_pos zero]
    by_cases many : shorterThan input (Size.mul count width) = true
    · simp only [if_pos many, reduceCtorEq, false_iff]
      intro h
      obtain ⟨-, -, room⟩ := h
      have := short.mp many
      have := room zero
      omega
    · simp only [if_neg many, EStateM.Result.ok.injEq, true_and]
      constructor
      · intro h
        subst h
        exact ⟨rfl, fun narrow => absurd narrow zero, fun _ => Nat.le_of_not_lt (mt short.mpr many)⟩
      · intro h
        obtain ⟨rfl, -⟩ := h
        rfl

theorem size_readItems {α : Type} {item : Nat → Reader α} {count : Nat} {done all : Array α}
    {input rest : List UInt8} (read : readItems item count done input = .ok all rest) :
    all.size = done.size + count := by
  induction count generalizing done input with
  | zero =>
    obtain ⟨_, -, -, rfl⟩ := (Exact.pure done _ _ _).mp read
    rfl
  | succ count ih =>
    obtain ⟨value, mid, -, others⟩ := bind_ok_iff.mp read
    rw [ih others, Array.size_push]
    omega

theorem readItems_exact {α : Type} {item : Nat → Reader α} {grammar : Grammar α}
    (h : ∀ position, Exact (item position) grammar) (count : Nat) (done : Array α) :
    Exact (readItems item count done) fun taken all =>
      ∃ values, values.length = count ∧ Items grammar taken values ∧
        all = done ++ values.toArray := by
  induction count generalizing done with
  | zero =>
    refine (Exact.pure done).congr fun taken all => ?_
    constructor
    · intro k
      obtain ⟨rfl, rfl⟩ := k
      exact ⟨[], rfl, .nil, by simp⟩
    · intro k
      obtain ⟨values, none, items, rfl⟩ := k
      obtain rfl := List.length_eq_zero_iff.mp none
      cases items
      exact ⟨rfl, by simp⟩
  | succ count ih =>
    refine ((h done.size).bind _ fun value _ _ => ih (done.push value)).congr fun taken all => ?_
    constructor
    · intro k
      obtain ⟨front, back, value, rfl, one, values, rfl, items, rfl⟩ := k
      exact ⟨value :: values, rfl, .cons one items, by simp⟩
    · intro k
      obtain ⟨values, length, items, rfl⟩ := k
      cases items with
      | nil => cases length
      | cons one items =>
        exact ⟨_, _, _, rfl, one, _, by simpa using length, items, by simp⟩

/-- Items that follow their count are never refused for it: they take the bytes it asks for. -/
theorem checkCount_items {α : Type} {grammar : Grammar α} {width done : Nat}
    (wide : ∀ taken value, grammar taken value → width ≤ taken.length)
    {body rest : List UInt8} {values : List α} (items : Items grammar body values)
    (few : width = 0 → done + values.length ≤ zeroWidthLimit) :
    checkCount width done values.length (body ++ rest) = .ok () (body ++ rest) := by
  refine checkCount_ok_iff.mpr ⟨rfl, few, fun _ => ?_⟩
  have room := items.length_le wide
  have product := Size.mul_le values.length width
  simp only [List.length_append]
  omega

/-- Reads blocks behind the items already `done`, no more of them than the bound has bytes. -/
def readBlocks {α : Type} (width : Nat) (item : Nat → Reader α) (bound : List UInt8)
    (done : Array α) : Reader (Array α) :=
  turns (readTurn width item) bound (if width = 0 then done.size else 0, done)

theorem readCollection_eq {α : Type} (width : Nat) (item : Nat → Reader α) (input : List UInt8) :
    readCollection width item input =
      (Array.toList <$> readBlocks width item input #[]) input := by
  have start : (if width = 0 then (#[] : Array α).size else 0) = 0 := ite_self 0
  rw [readBlocks, start]
  rfl

/-- The items that were counted are those that are done. -/
theorem readBlocks_cons {α : Type} (width : Nat) (item : Nat → Reader α) (byte : UInt8)
    (bound : List UInt8) (done : Array α) : readBlocks width item (byte :: bound) done = (do
      let count ← readCount
      if count = 0 then return done
      else do
        checkCount width done.size count
        let done ← readItems item count done
        readBlocks width item bound done) := by
  have check (count : Nat) (input : List UInt8) :
      (checkCount width (if width = 0 then done.size else 0) count : Reader Unit) input =
        checkCount width done.size count input := by
    by_cases zero : width = 0
    · rw [if_pos zero]
    · rw [checkCount_pos zero, checkCount_pos zero]
  simp only [readBlocks, turns, readTurn, bind_assoc]
  refine bind_congr fun count => ?_
  by_cases none : count = 0
  · simp only [if_pos none, pure_bind]
  simp only [if_neg none, bind_assoc, pure_bind]
  funext input
  have same := check count input
  simp only [Bind.bind, EStateM.bind, same]
  refine bind_congr_ok fun _ rest checked => bind_congr_ok fun all rest read => ?_
  obtain ⟨-, few, -⟩ := checkCount_ok_iff.mp checked
  have size := size_readItems read
  by_cases zero : width = 0
  · have sum : done.size + count ≤ Size.largest := Nat.le_trans (few zero) (by decide)
    simp only [if_pos zero, size, Size.add_eq sum]
  · simp only [if_neg zero]

theorem readBlocks_ok_iff {α : Type} {width : Nat} {item : Nat → Reader α} {grammar : Grammar α}
    (h : ∀ position, Exact (item position) grammar)
    (wide : ∀ taken value, grammar taken value → width ≤ taken.length)
    {bound input rest : List UInt8} {done all : Array α} (enough : input.length ≤ bound.length)
    (few : width = 0 → done.size ≤ zeroWidthLimit) :
    readBlocks width item bound done input = .ok all rest ↔
      ∃ taken values, input = taken ++ rest ∧ Blocks grammar taken values ∧
        (width = 0 → done.size + values.length ≤ zeroWidthLimit) ∧
        all = done ++ values.toArray := by
  induction bound generalizing input done with
  | nil =>
    obtain rfl := List.length_eq_zero_iff.mp (Nat.le_zero.mp enough)
    have refused : readBlocks width item [] done [] =
      .error (Located.here (.truncated 1 0)) [] := rfl
    simp only [refused, reduceCtorEq, false_iff]
    intro k
    obtain ⟨taken, values, split, blocks, -⟩ := k
    have := blocks.pos
    simp_all
  | cons _ bound ih =>
    rw [readBlocks_cons, bind_ok_iff]
    constructor
    · intro k
      obtain ⟨count, mid, one, two⟩ := k
      obtain ⟨head, rfl, ⟨rfl, codes⟩ | block⟩ := (readCount_exact _ _ _).mp one
      · obtain ⟨rfl, rfl⟩ : done = all ∧ mid = rest := by
          simpa [Pure.pure, EStateM.pure] using two
        exact ⟨head, [], rfl, .done codes, by simpa using few, by simp⟩
      · have := block.pos
        rw [if_neg (by omega), bind_ok_iff] at two
        obtain ⟨_, _, checked, two⟩ := two
        obtain ⟨rfl, narrow, -⟩ := checkCount_ok_iff.mp checked
        rw [bind_ok_iff] at two
        obtain ⟨next, mid, one, two⟩ := two
        obtain ⟨body, rfl, values, rfl, items, rfl⟩ := (readItems_exact h _ _ _ _ _).mp one
        simp only [List.length_append, List.length_cons] at enough
        obtain ⟨taken, others, rfl, blocks, small, rfl⟩ :=
          (ih (by omega) (by simpa using narrow)).mp two
        refine ⟨head ++ body ++ taken, values ++ others, by simp, .more block items blocks, ?_, ?_⟩
        · simpa [Nat.add_assoc] using small
        · simp
    · intro k
      obtain ⟨taken, values, rfl, blocks, small, rfl⟩ := k
      cases blocks with
      | done codes =>
        refine ⟨0, rest, (readCount_exact _ _ _).mpr ⟨taken, rfl, .inl ⟨rfl, codes⟩⟩, ?_⟩
        simp [Pure.pure, EStateM.pure]
      | @more head body tail values others block items blocks =>
        have := block.pos
        simp only [List.length_append, List.length_cons] at enough small
        refine ⟨values.length, body ++ (tail ++ rest), (readCount_exact _ _ _).mpr
          ⟨head, by simp, .inr block⟩, ?_⟩
        rw [if_neg (by omega)]
        refine bind_ok_iff.mpr ⟨(), _, checkCount_items wide items (by omega), ?_⟩
        have run := (readItems_exact h values.length done _ _ (tail ++ rest)).mpr
          ⟨body, rfl, values, rfl, items, rfl⟩
        refine bind_ok_iff.mpr ⟨done ++ values.toArray, tail ++ rest, run, ?_⟩
        refine (ih (by simp; omega) (by simp; omega)).mpr ⟨tail, others, rfl, blocks, ?_, by simp⟩
        simp
        omega

theorem readCollection_exact {α : Type} {width : Nat} {item : Nat → Reader α} {grammar : Grammar α}
    (h : ∀ position, Exact (item position) grammar)
    (wide : ∀ taken value, grammar taken value → width ≤ taken.length) :
    Exact (readCollection width item) (Collection width grammar) := by
  intro input values rest
  have blocks (all : Array α) : readBlocks width item input #[] input = .ok all rest ↔
      ∃ taken values, input = taken ++ rest ∧ Blocks grammar taken values ∧
        (width = 0 → 0 + values.length ≤ zeroWidthLimit) ∧ all = #[] ++ values.toArray :=
    readBlocks_ok_iff h wide (Nat.le_refl _) fun _ => Nat.zero_le _
  rw [readCollection_eq, map_ok_iff]
  constructor
  · intro k
    obtain ⟨all, read, rfl⟩ := k
    obtain ⟨taken, values, split, blocks, small, rfl⟩ := (blocks all).mp read
    exact ⟨taken, split, by simpa using blocks, by simpa using small⟩
  · intro k
    obtain ⟨taken, split, body, small⟩ := k
    have all := (blocks values.toArray).mpr
      ⟨taken, values, split, body, by simpa using small, by simp⟩
    exact ⟨values.toArray, all, rfl⟩

/-- A key takes a byte at least, and the value behind it what the schema asks for. -/
theorem Entry.exact_width_le {schema : Schema} (taken : List UInt8) (entry : String × Value)
    (h : Entry (Encodes schema) taken entry) : schema.minWidth + 1 ≤ taken.length := by
  obtain ⟨front, back, rfl, key, one⟩ := h
  have first := key.pos
  have second := one.minWidth_le
  rw [List.length_append]
  omega

theorem Entry.width_le {schema : Schema} (taken : List UInt8) (entry : String × Value)
    (h : Entry (Encodes schema) taken entry) : Size.add schema.minWidth 1 ≤ taken.length :=
  Nat.le_trans (Size.add_le schema.minWidth 1) (exact_width_le taken entry h)

/-- A word of so many bytes, lowest first. -/
theorem word_exact {ω : Type} (size : Nat) {ofNat : Nat → ω} {toNat : ω → Nat}
    (value : ∀ n < 256 ^ size, toNat (ofNat n) = n) (word : ∀ w, ofNat (toNat w) = w)
    (f : ω → Value) : Exact ((fun data => f (ofNat (LittleEndian.decode data))) <$> readBlock size)
      fun taken v =>
        ∃ w, (taken.length = size ∧ LittleEndian.decode taken = toNat w) ∧ v = f w := by
  refine ((Exact.readBlock size).map _).congr fun taken v => ?_
  constructor
  · intro h
    obtain ⟨data, ⟨length, rfl⟩, rfl⟩ := h
    have top := LittleEndian.decode_lt taken
    rw [length] at top
    exact ⟨_, ⟨length, (value _ top).symm⟩, rfl⟩
  · intro h
    obtain ⟨w, ⟨length, digits⟩, rfl⟩ := h
    exact ⟨taken, ⟨length, rfl⟩, by rw [digits, word]⟩

theorem float_exact : Exact (read .float) (Encodes .float) :=
  word_exact 4 (fun _ => UInt32.toNat_ofNat_of_lt) (fun _ => UInt32.ofNat_toNat) Value.float

theorem double_exact : Exact (read .double) (Encodes .double) :=
  word_exact 8 (fun _ => UInt64.toNat_ofNat_of_lt) (fun _ => UInt64.ofNat_toNat) Value.double

theorem readEntry_exact {step : Reader Value} {grammar : Grammar Value} (h : Exact step grammar) :
    Exact (do
      let key ← readString
      let value ← within (.key key) step
      return (key, value)) (Entry grammar) := by
  refine (readString_exact.bind _ fun key _ _ =>
    (h.within _).check _ fun value _ _ => Exact.pure (key, value)).congr fun taken entry => ?_
  constructor
  · intro k
    obtain ⟨front, back, key, rfl, text, value, one, rfl⟩ := k
    exact ⟨front, back, rfl, text, one⟩
  · intro k
    obtain ⟨front, back, rfl, text, one⟩ := k
    exact ⟨front, back, _, rfl, text, _, one, rfl⟩

theorem isSome_branch?_iff (branches : List Schema) (position : Nat) :
    (branch? branches position : Option (Reader Value)).isSome ↔ position < branches.length := by
  induction branches generalizing position with
  | nil => simp [branch?]
  | cons _ rest ih =>
    cases position with
    | zero => simp [branch?]
    | succ position => simpa [branch?] using ih position

theorem BranchEncodes.lt_length {branches : List Schema} {position : Nat} {taken : List UInt8}
    {value : Value} (h : BranchEncodes branches position taken value) :
    position < branches.length := by
  induction branches generalizing position with
  | nil => exact h.elim
  | cons _ rest ih =>
    cases position with
    | zero => exact Nat.succ_pos rest.length
    | succ position => exact Nat.succ_lt_succ (ih h)

theorem readUnion_exact {branches : List Schema}
    (h : ∀ (position : Nat) (step : Reader Value), branch? branches position = some step →
      Exact step (BranchEncodes branches position)) :
    Exact (read (.union branches)) (Encodes (.union branches)) := by
  have inner (position : UInt32) (inside : position.toNat < branches.length) :
      Exact ((branch? branches position.toNat).getD
        (Reads.absent branches.length position.toNat) : Reader Value)
        (BranchEncodes branches position.toNat) := by
    obtain ⟨step, found⟩ := Option.isSome_iff_exists.mp ((isSome_branch?_iff branches _).mpr inside)
    rw [found]
    exact h _ step found
  refine ((readIndex_exact .branch branches.length).bind _ fun position _ one =>
    ((inner position one.2).within (.branch position.toNat)).map (Value.union position)).congr ?_
  intro taken value
  constructor
  · intro k
    obtain ⟨front, back, position, rfl, ⟨codes, -⟩, inner, one, rfl⟩ := k
    exact ⟨front, back, position, inner, rfl, codes, one, rfl⟩
  · intro k
    obtain ⟨front, back, position, inner, rfl, codes, one, rfl⟩ := k
    exact ⟨front, back, position, rfl, ⟨codes, one.lt_length⟩, inner, one, rfl⟩

theorem readEnum_exact (name : String) (symbols : List String) :
    Exact (read (.enum name symbols)) (Encodes (.enum name symbols)) := by
  refine ((readIndex_exact .symbol symbols.length).map Value.enum).congr fun taken value => ?_
  constructor
  · intro h
    obtain ⟨position, stands, rfl⟩ := h
    exact ⟨position, stands, rfl⟩
  · intro h
    obtain ⟨position, stands, rfl⟩ := h
    exact ⟨position, stands, rfl⟩

mutual

/-- The reader of a schema takes exactly the grammar of the schema. -/
theorem read_exact (schema : Schema) : Exact (read schema) (Encodes schema) := by
  match schema with
  | .null => exact Exact.pure _
  | .boolean => exact readBoolean_exact.map _
  | .int => exact readInt_exact.map _
  | .long => exact readLong_exact.map _
  | .float => exact float_exact
  | .double => exact double_exact
  | .bytes => exact readBytes_exact.map _
  | .string => exact readString_exact.map _
  | .array item =>
    exact (readCollection_exact (fun position => (read_exact item).within _)
      fun _ _ => Encodes.minWidth_le item).map _
  | .map schema =>
    refine ((readCollection_exact (fun _ => readEntry_exact (read_exact schema))
      Entry.width_le).map _).congr fun taken value => ?_
    have wide : Size.add schema.minWidth 1 ≠ 0 := by simp [Size.add, Size.largest]
    simp [Encodes, Collection, wide]
  | .union branches => exact readUnion_exact (branch_exact branches)
  | .enum name symbols => exact readEnum_exact name symbols
  | .fixed _ size => exact (Exact.readBlock size).map _
  | .record _ fields => exact (readFields_exact fields).map _

theorem branch_exact (branches : List Schema) (position : Nat) (step : Reader Value)
    (found : branch? branches position = some step) :
    Exact step (BranchEncodes branches position) := by
  match branches, position with
  | [], _ => cases found
  | schema :: _, 0 =>
    obtain rfl : read schema = step := by simpa [branch?] using found
    exact read_exact schema
  | _ :: rest, position + 1 => exact branch_exact rest position step found

theorem readFields_exact (fields : List (String × Schema)) :
    Exact (readFields fields) (FieldsEncode fields) := by
  match fields with
  | [] => exact Exact.pure _
  | (name, schema) :: rest =>
    refine (((read_exact schema).within (.field name)).bind _ fun value _ _ =>
      (readFields_exact rest).map (value :: ·)).congr fun taken values => ?_
    constructor
    · intro h
      obtain ⟨front, back, value, rfl, one, others, body, rfl⟩ := h
      exact ⟨front, back, value, others, rfl, one, body, rfl⟩
    · intro h
      obtain ⟨front, back, value, others, rfl, one, body, rfl⟩ := h
      exact ⟨front, back, value, rfl, one, others, body, rfl⟩

end

/-- What is read is what the grammar has, and the count of a block, which is compared with all
that is left unread, never stands in the way of it. -/
theorem read_ok_iff_encodes (schema : Schema) (input : List UInt8) :
    (∀ value rest, read schema input = .ok value rest ↔
      ∃ taken, input = taken ++ rest ∧ Encodes schema taken value) ∧
    ¬ ∃ taken rest value path count available unread,
      input = taken ++ rest ∧ Encodes schema taken value ∧
        read schema input = .error ⟨path, .blockCount count available⟩ unread := by
  refine ⟨fun value rest => read_exact schema input value rest, ?_⟩
  intro h
  obtain ⟨taken, rest, value, path, count, available, unread, split, encodes, refused⟩ := h
  have accepted := (read_exact schema input value rest).mpr ⟨taken, split, encodes⟩
  rw [refused] at accepted
  cases accepted

end Clickstream.Wire

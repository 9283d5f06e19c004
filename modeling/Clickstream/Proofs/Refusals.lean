import Clickstream.Proofs.Reading

namespace Clickstream

/-- Which inputs are refused and for what, and what is left of them unread. -/
abbrev Refusal := List UInt8 → Located Corruption → List UInt8 → Prop

/-- Which bytes of a node are bad and for what, and what is left unread behind them. -/
abbrev Defect := List UInt8 → Corruption → List UInt8 → Prop

/-- A defect of the node that is read, and not of one further down. -/
def Defect.here (defect : Defect) : Refusal := fun input fault rest =>
  ∃ corruption, fault = .here corruption ∧ defect input corruption rest

/-- A refusal seen from one node further up. -/
def Refusal.within (segment : Segment) (refusal : Refusal) : Refusal := fun input fault rest =>
  ∃ inner, fault = inner.within segment ∧ refusal input inner rest

namespace Reader

variable {α β : Type}

/-- A reader that fails on what the relation has, and on nothing else. -/
def Refuses (step : Reader α) (refusal : Refusal) : Prop :=
  ∀ input fault rest, step input = .error fault rest ↔ refusal input fault rest

theorem bind_error_iff {first : Reader α} {second : α → Reader β} {input rest : List UInt8}
    {fault : Located Corruption} : (first >>= second) input = .error fault rest ↔
      first input = .error fault rest ∨
        ∃ a mid, first input = .ok a mid ∧ second a mid = .error fault rest := by
  simp only [Bind.bind, EStateM.bind]
  cases first input with
  | ok a mid =>
    constructor
    · intro h
      exact .inr ⟨a, mid, rfl, h⟩
    · intro h
      obtain h | ⟨_, _, h, failed⟩ := h
      · cases h
      · cases h
        exact failed
  | error => simp

namespace Refuses

theorem congr {step : Reader α} {refusal refusal' : Refusal} (h : Refuses step refusal)
    (same : ∀ input fault rest, refusal input fault rest ↔ refusal' input fault rest) :
    Refuses step refusal' := by
  intro input fault rest
  rw [h input fault rest, same]

theorem pure (a : α) : Refuses (Pure.pure a) fun _ _ _ => False := by
  intro input fault rest
  change EStateM.Result.ok a input = .error fault rest ↔ _
  simp

theorem refuse (corruption : Corruption) : Refuses (Reader.refuse corruption : Reader α)
    (Defect.here fun input cause rest => cause = corruption ∧ rest = input) := by
  intro input fault rest
  change EStateM.Result.error (Located.here corruption) input = .error fault rest ↔ _
  rw [EStateM.Result.error.injEq]
  constructor
  · intro h
    obtain ⟨rfl, rfl⟩ := h
    exact ⟨corruption, rfl, rfl, rfl⟩
  · intro h
    obtain ⟨_, rfl, rfl, rfl⟩ := h
    exact ⟨rfl, rfl⟩

theorem map (f : α → β) {step : Reader α} {refusal : Refusal} (h : Refuses step refusal) :
    Refuses (f <$> step) refusal := by
  intro input fault rest
  rw [← h input fault rest]
  simp only [Functor.map, EStateM.map]
  cases step input <;> simp

/-- Of two steps the second can fail behind all that the first may take. -/
theorem bind {first : Reader α} {second : α → Reader β} {grammar : Grammar α} {refusal : Refusal}
    (h : Refuses first refusal) (exact : Exact first grammar) (next : α → Refusal)
    (k : ∀ a front, grammar front a → Refuses (second a) (next a)) :
    Refuses (first >>= second) fun input fault rest => refusal input fault rest ∨
      ∃ front back a, input = front ++ back ∧ grammar front a ∧ next a back fault rest := by
  intro input fault rest
  rw [bind_error_iff, h input fault rest]
  refine or_congr_right ?_
  constructor
  · intro h
    obtain ⟨a, back, one, two⟩ := h
    obtain ⟨front, rfl, took⟩ := (exact _ _ _).mp one
    exact ⟨front, back, a, rfl, took, (k a front took _ _ _).mp two⟩
  · intro h
    obtain ⟨front, back, a, rfl, took, two⟩ := h
    exact ⟨a, back, (exact _ _ _).mpr ⟨front, rfl, took⟩, (k a front took _ _ _).mpr two⟩

theorem within (segment : Segment) {step : Reader α} {refusal : Refusal}
    (h : Refuses step refusal) : Refuses (within segment step) (refusal.within segment) := by
  intro input fault rest
  have refused := h input
  simp only [Reader.within, Refusal.within]
  cases one : step input with
  | ok a mid =>
    simp only [one, reduceCtorEq, false_iff] at refused
    simp [refused]
  | error told left =>
    simp only [one, EStateM.Result.error.injEq] at refused
    simp only [← refused, EStateM.Result.error.injEq]
    constructor
    · intro h
      obtain ⟨rfl, rfl⟩ := h
      exact ⟨told, rfl, rfl, rfl⟩
    · intro h
      obtain ⟨_, rfl, rfl, rfl⟩ := h
      exact ⟨rfl, rfl⟩

theorem here_congr {step : Reader α} {defect defect' : Defect} (h : Refuses step defect.here)
    (same : ∀ input cause rest, defect input cause rest ↔ defect' input cause rest) :
    Refuses step defect'.here := h.congr fun input fault rest => by simp only [Defect.here, same]

theorem here_pure (a : α) {defect : Defect} (fine : ∀ input cause rest, ¬ defect input cause rest) :
    Refuses (Pure.pure a) defect.here :=
  (pure a).congr fun _ _ _ => iff_of_false id fun ⟨_, _, bad⟩ => fine _ _ _ bad

theorem here_bind {first : Reader α} {second : α → Reader β} {grammar : Grammar α}
    {defect : Defect} (h : Refuses first defect.here) (exact : Exact first grammar)
    (next : α → Defect) (k : ∀ a front, grammar front a → Refuses (second a) (next a).here) :
    Refuses (first >>= second) (Defect.here fun input cause rest => defect input cause rest ∨
      ∃ front back a, input = front ++ back ∧ grammar front a ∧ next a back cause rest) := by
  refine (h.bind exact _ k).congr fun input fault rest => ?_
  constructor
  · intro h
    obtain ⟨cause, rfl, bad⟩ | ⟨front, back, a, rfl, took, cause, rfl, bad⟩ := h
    · exact ⟨cause, rfl, .inl bad⟩
    · exact ⟨cause, rfl, .inr ⟨front, back, a, rfl, took, bad⟩⟩
  · intro h
    obtain ⟨cause, rfl, bad | ⟨front, back, a, rfl, took, bad⟩⟩ := h
    · exact .inl ⟨cause, rfl, bad⟩
    · exact .inr ⟨front, back, a, rfl, took, cause, rfl, bad⟩

theorem readBlock (count : Nat) : Refuses (Datum.readBlock count)
    (Defect.here fun input cause rest => input.length < count ∧
      cause = .truncated count input.length ∧ rest = input) := by
  intro input fault rest
  by_cases few : input.length < count
  · rw [Wire.readBlock_short few, EStateM.Result.error.injEq]
    constructor
    · intro h
      obtain ⟨rfl, rfl⟩ := h
      exact ⟨_, rfl, few, rfl, rfl⟩
    · intro h
      obtain ⟨_, rfl, -, rfl, rfl⟩ := h
      exact ⟨rfl, rfl⟩
  · rw [Wire.readBlock_enough (Nat.le_of_not_lt few)]
    simp only [reduceCtorEq, false_iff]
    intro h
    obtain ⟨_, -, less, -⟩ := h
    exact few less

theorem readByte : Refuses Datum.readByte
    (Defect.here fun input cause rest => input = [] ∧ cause = .truncated 1 0 ∧ rest = []) := by
  intro input fault rest
  cases input with
  | nil =>
    rw [Wire.readByte_nil, EStateM.Result.error.injEq]
    constructor
    · intro h
      obtain ⟨rfl, rfl⟩ := h
      exact ⟨_, rfl, rfl, rfl, rfl⟩
    · intro h
      obtain ⟨_, rfl, -, rfl, rfl⟩ := h
      exact ⟨rfl, rfl⟩
  | cons byte tail =>
    rw [Wire.readByte_cons]
    simp [Defect.here]

end Refuses

end Reader

namespace Wire
open Datum Reader Varint

/-- Groups that all have the mark of one more, up to the last place there is. In front of it there
is room for `left` of them. -/
inductive BadGroups (left : Nat) : Defect
  | ended {marked : List UInt8} : marked.length ≤ left → (∀ byte ∈ marked, ¬ byte < 0x80) →
    BadGroups left marked (.truncated 1 0) []
  | tenth {marked rest : List UInt8} {byte : UInt8} : marked.length = left →
    (∀ byte ∈ marked, ¬ byte < 0x80) → 1 < byte →
    BadGroups left (marked ++ byte :: rest) .varintLength rest

/-- A number that does not end, or that has a tenth group of more than one bit. -/
def BadLong : Defect := BadGroups 9

inductive BadInt : Defect
  | long {input rest : List UInt8} {cause : Corruption} : BadLong input cause rest →
    BadInt input cause rest
  | range {head rest : List UInt8} {n : Int64} : Codes head n.toInt →
    ¬ (-2 ^ 31 ≤ n.toInt ∧ n.toInt < 2 ^ 31) → BadInt (head ++ rest) (.intRange n) rest

inductive BadBytes : Defect
  | length {input rest : List UInt8} {cause : Corruption} : BadLong input cause rest →
    BadBytes input cause rest
  | negative {head rest : List UInt8} {length : Int64} : Codes head length.toInt →
    length.toInt < 0 → BadBytes (head ++ rest) (.negativeLength length) rest
  | short {head rest : List UInt8} {length : Nat} : Codes head length → rest.length < length →
    BadBytes (head ++ rest) (.truncated length rest.length) rest

inductive BadString : Defect
  | bytes {input rest : List UInt8} {cause : Corruption} : BadBytes input cause rest →
    BadString input cause rest
  | utf8 {taken rest data : List UInt8} {fault : Utf8.Fault} : Sized taken data →
    Utf8.decode data = .error fault → BadString (taken ++ rest) (.utf8 fault) rest

/-- An index that does not fit 32 bits is bad even if there are so many things. -/
inductive BadIndex (indexed : Indexed) (count : Nat) : Defect
  | long {input rest : List UInt8} {cause : Corruption} : BadLong input cause rest →
    BadIndex indexed count input cause rest
  | range {head rest : List UInt8} {index : Int64} : Codes head index.toInt →
    ¬ (0 ≤ index.toInt ∧ index.toInt < 2 ^ 32 ∧ index.toInt < count) →
    BadIndex indexed count (head ++ rest) (.index indexed index count) rest

inductive BadCount : Defect
  | long {input rest : List UInt8} {cause : Corruption} : BadLong input cause rest →
    BadCount input cause rest
  | size {head back rest : List UInt8} {count : Int} {cause : Corruption} : Codes head count →
    count < 0 → BadLong back cause rest → BadCount (head ++ back) cause rest
  | range {head size rest : List UInt8} {ignored : Int} : Codes head (-2 ^ 63) →
    Codes size ignored → BadCount (head ++ size ++ rest) .countRange rest

/-- A block may hold so many items after those already `done`. -/
def Admits (width done count : Nat) (unread : List UInt8) : Prop :=
  (width = 0 → done + count ≤ zeroWidthLimit) ∧
    (width ≠ 0 → Size.mul count width ≤ unread.length)

/-- A block asks for more items than there can be, after those already `done`. -/
inductive Excess (width done count : Nat) (unread : List UInt8) : Corruption → Prop
  | items : width = 0 → zeroWidthLimit < done + count →
    Excess width done count unread .zeroWidthItems
  | room : width ≠ 0 → unread.length < Size.mul count width →
    Excess width done count unread (.blockCount count unread.length)

/-- The head of a block. -/
inductive BadBlock (width done : Nat) : Defect
  | count {input rest : List UInt8} {cause : Corruption} : BadCount input cause rest →
    BadBlock width done input cause rest
  | excess {head rest : List UInt8} {count : Nat} {cause : Corruption} : BlockCount head count →
    Excess width done count rest cause → BadBlock width done (head ++ rest) cause rest

section Suffixes

variable {input rest : List UInt8} {cause : Corruption}

theorem BadGroups.suffix {left : Nat} (h : BadGroups left input cause rest) : rest <:+ input := by
  cases h with
  | ended => exact List.nil_suffix
  | @tenth marked rest byte =>
    exact (List.suffix_cons byte rest).trans (List.suffix_append marked (byte :: rest))

theorem BadInt.suffix (h : BadInt input cause rest) : rest <:+ input := by
  cases h with
  | long bad => exact bad.suffix
  | range => exact List.suffix_append _ rest

theorem BadBytes.suffix (h : BadBytes input cause rest) : rest <:+ input := by
  cases h with
  | length bad => exact bad.suffix
  | negative | short => exact List.suffix_append _ rest

theorem BadString.suffix (h : BadString input cause rest) : rest <:+ input := by
  cases h with
  | bytes bad => exact bad.suffix
  | utf8 => exact List.suffix_append _ rest

theorem BadIndex.suffix {indexed : Indexed} {count : Nat}
    (h : BadIndex indexed count input cause rest) : rest <:+ input := by
  cases h with
  | long bad => exact bad.suffix
  | range => exact List.suffix_append _ rest

theorem BadCount.suffix (h : BadCount input cause rest) : rest <:+ input := by
  cases h with
  | long bad => exact bad.suffix
  | size _ _ bad => exact bad.suffix.trans (List.suffix_append _ _)
  | range => exact List.suffix_append _ rest

theorem BadBlock.suffix {width done : Nat} (h : BadBlock width done input cause rest) :
    rest <:+ input := by
  cases h with
  | count bad => exact bad.suffix
  | excess => exact List.suffix_append _ rest

end Suffixes

theorem BadGroups.cons_iff {left : Nat} {byte : UInt8} {tail rest : List UInt8}
    {cause : Corruption} : BadGroups left (byte :: tail) cause rest ↔
      (left = 0 ∧ 1 < byte ∧ cause = .varintLength ∧ rest = tail) ∨
        ∃ less, left = less + 1 ∧ ¬ byte < 0x80 ∧ BadGroups less tail cause rest := by
  constructor
  · intro h
    generalize whole : byte :: tail = input at h
    cases h with
    | ended few high =>
      subst whole
      obtain ⟨less, rfl⟩ : ∃ less, left = less + 1 := ⟨left - 1, by simp at few; omega⟩
      rw [List.forall_mem_cons] at high
      exact .inr ⟨less, rfl, high.1, .ended (by simpa using few) high.2⟩
    | @tenth marked _ last full high large =>
      cases marked with
      | nil =>
        obtain ⟨rfl, rfl⟩ : byte = last ∧ tail = rest := by simpa using whole
        exact .inl ⟨full.symm, large, rfl, rfl⟩
      | cons first marked =>
        obtain ⟨rfl, rfl⟩ : byte = first ∧ tail = marked ++ last :: rest := by simpa using whole
        rw [List.forall_mem_cons] at high
        exact .inr ⟨marked.length, full.symm, high.1, .tenth rfl high.2 large⟩
  · intro h
    obtain ⟨rfl, large, rfl, rfl⟩ | ⟨less, rfl, high, h⟩ := h
    · rw [← List.nil_append (byte :: rest)]
      exact .tenth rfl (by simp) large
    · cases h with
      | ended few others =>
        exact .ended (by simpa using few) (List.forall_mem_cons.mpr ⟨high, others⟩)
      | tenth full others large =>
        rw [← List.cons_append]
        exact .tenth (by simp [full]) (List.forall_mem_cons.mpr ⟨high, others⟩) large

/-- After `k` groups there is room for `left` more and a last one. -/
theorem readGroups_refuses {k left : Nat} (ten : k + left = 9) (done : UInt64) :
    Refuses (readGroups (7 * k) done) (BadGroups left).here := by
  intro input fault rest
  induction input generalizing k left done with
  | nil =>
    rw [readGroups_nil, EStateM.Result.error.injEq]
    constructor
    · intro h
      obtain ⟨rfl, rfl⟩ := h
      exact ⟨_, rfl, .ended (Nat.zero_le left) (by simp)⟩
    · intro h
      obtain ⟨cause, rfl, bad⟩ := h
      generalize whole : ([] : List UInt8) = input at bad
      cases bad with
      | ended => exact ⟨rfl, whole.symm⟩
      | tenth => simp at whole
  | cons byte tail ih =>
    have one : 1 < byte ↔ 1 < byte.toNat := UInt8.lt_iff_toNat_lt
    simp only [Defect.here, BadGroups.cons_iff]
    by_cases tenth : k = 9 ∧ 1 < byte.toNat
    · rw [readGroups_tenth tenth, EStateM.Result.error.injEq]
      constructor
      · intro h
        obtain ⟨rfl, rfl⟩ := h
        exact ⟨_, rfl, .inl ⟨by omega, one.mpr tenth.2, rfl, rfl⟩⟩
      · intro h
        obtain ⟨_, rfl, ⟨-, -, rfl, rfl⟩ | ⟨less, more, -⟩⟩ := h
        · exact ⟨rfl, rfl⟩
        · omega
    · rw [readGroups_cons tenth]
      by_cases low : byte < 0x80
      · simp only [low, ↓reduceIte, reduceCtorEq, false_iff]
        intro h
        obtain ⟨_, -, ⟨rfl, large, -⟩ | ⟨less, -, high, -⟩⟩ := h
        · exact tenth ⟨ten, one.mp large⟩
        · exact high trivial
      · have small : byte < 0x80 ↔ byte.toNat < 128 := UInt8.lt_iff_toNat_lt
        have high := mt small.mpr low
        obtain ⟨less, rfl⟩ : ∃ less, left = less + 1 := ⟨left - 1, by omega⟩
        rw [if_neg low, ih (show k + 1 + less = 9 by omega)]
        constructor
        · intro h
          obtain ⟨cause, rfl, bad⟩ := h
          exact ⟨cause, rfl, .inr ⟨less, rfl, low, bad⟩⟩
        · intro h
          obtain ⟨cause, rfl, ⟨zero, -⟩ | ⟨_, same, -, bad⟩⟩ := h
          · cases zero
          · cases same
            exact ⟨cause, rfl, bad⟩

theorem readLong_refuses : Refuses readLong BadLong.here :=
  readLong_eq ▸ (readGroups_refuses (k := 0) rfl 0).map unzigzag

theorem readInt_refuses : Refuses readInt BadInt.here := by
  refine (readLong_refuses.here_bind readLong_exact (fun n input cause rest =>
    ¬ (-2 ^ 31 ≤ n.toInt ∧ n.toInt < 2 ^ 31) ∧ cause = .intRange n ∧ rest = input) ?_).here_congr ?_
  · intro n front _
    have low : Int32.minValue.toInt = -2 ^ 31 := by decide
    have high : Int32.maxValue.toInt = 2 ^ 31 - 1 := by decide
    by_cases range : Int32.minValue.toInt ≤ n.toInt ∧ n.toInt ≤ Int32.maxValue.toInt
    · rw [if_pos range]
      exact Refuses.here_pure _ fun input cause rest ⟨far, _⟩ => far (by omega)
    · rw [if_neg range]
      refine (Refuses.refuse _).here_congr fun input cause rest => ?_
      have far : ¬ (-2 ^ 31 ≤ n.toInt ∧ n.toInt < 2 ^ 31) := by omega
      simp only [far, not_false_eq_true, true_and]
  · intro input cause rest
    constructor
    · intro h
      obtain bad | ⟨head, _, n, rfl, codes, far, rfl, rfl⟩ := h
      · exact .long bad
      · exact .range codes far
    · intro h
      cases h with
      | long bad => exact .inl bad
      | range codes far => exact .inr ⟨_, _, _, rfl, codes, far, rfl, rfl⟩

theorem readLength_refuses : Refuses readLength (Defect.here fun input cause rest =>
    BadLong input cause rest ∨ ∃ (head : List UInt8) (length : Int64), input = head ++ rest ∧
      Codes head length.toInt ∧ length.toInt < 0 ∧ cause = .negativeLength length) := by
  refine (readLong_refuses.here_bind readLong_exact (fun (length : Int64) input cause rest =>
    length.toInt < 0 ∧ cause = .negativeLength length ∧ rest = input) ?_).here_congr ?_
  · intro length _ _
    have sign : length < 0 ↔ length.toInt < 0 := Int64.lt_iff_toInt_lt
    by_cases negative : length < 0
    · rw [if_pos negative]
      simp only [sign.mp negative, true_and]
      exact Refuses.refuse _
    · rw [if_neg negative]
      rw [sign] at negative
      exact Refuses.here_pure _ fun input cause rest ⟨below, _⟩ => negative below
  · intro input cause rest
    refine or_congr_right ?_
    constructor
    · intro h
      obtain ⟨head, _, length, rfl, codes, negative, rfl, rfl⟩ := h
      exact ⟨head, length, rfl, codes, negative, rfl⟩
    · intro h
      obtain ⟨head, length, rfl, codes, negative, rfl⟩ := h
      exact ⟨head, rest, length, rfl, codes, negative, rfl, rfl⟩

theorem readBytes_refuses : Refuses readBytes BadBytes.here := by
  refine (readLength_refuses.here_bind readLength_exact _ fun length _ _ =>
    Refuses.readBlock length).here_congr ?_
  intro input cause rest
  constructor
  · intro h
    obtain (bad | ⟨head, length, rfl, codes, negative, rfl⟩) |
      ⟨head, _, length, rfl, codes, short, rfl, rfl⟩ := h
    · exact .length bad
    · exact .negative codes negative
    · exact .short codes short
  · intro h
    cases h with
    | length bad => exact .inl (.inl bad)
    | negative codes sign => exact .inl (.inr ⟨_, _, rfl, codes, sign, rfl⟩)
    | short codes short => exact .inr ⟨_, _, _, rfl, codes, short, rfl, rfl⟩

theorem readString_refuses : Refuses readString BadString.here := by
  refine (readBytes_refuses.here_bind readBytes_exact (fun data input cause rest =>
    ∃ fault, Utf8.decode data = .error fault ∧ cause = .utf8 fault ∧ rest = input) ?_).here_congr ?_
  · intro data front _
    cases found : Utf8.decode data with
    | ok text =>
      exact Refuses.here_pure _ fun input cause rest ⟨_, other, _⟩ => by cases other
    | error fault =>
      refine (Refuses.refuse _).here_congr fun input cause rest => ?_
      simp only [Except.error.injEq, exists_eq_left']
  · intro input cause rest
    constructor
    · intro h
      obtain bad | ⟨taken, _, data, rfl, sized, fault, invalid, rfl, rfl⟩ := h
      · exact .bytes bad
      · exact .utf8 sized invalid
    · intro h
      cases h with
      | bytes bad => exact .inl bad
      | utf8 sized invalid => exact .inr ⟨_, _, _, rfl, sized, _, invalid, rfl, rfl⟩

theorem readIndex_refuses (indexed : Indexed) (count : Nat) :
    Refuses (readIndex indexed count) (BadIndex indexed count).here := by
  refine (readLong_refuses.here_bind readLong_exact (fun (index : Int64) input cause rest =>
    ¬ (0 ≤ index.toInt ∧ index.toInt < 2 ^ 32 ∧ index.toInt < count) ∧
      cause = .index indexed index count ∧ rest = input) ?_).here_congr ?_
  · intro index _ _
    by_cases near : 0 ≤ index.toInt ∧ index.toInt < 0x1_0000_0000 ∧ index.toInt < count
    · rw [if_pos near]
      exact Refuses.here_pure _ fun input cause rest ⟨far, _⟩ => far (by omega)
    · rw [if_neg near]
      have far : ¬ (0 ≤ index.toInt ∧ index.toInt < 2 ^ 32 ∧ index.toInt < count) := by omega
      simp only [far, not_false_eq_true, true_and]
      exact Refuses.refuse _
  · intro input cause rest
    constructor
    · intro h
      obtain bad | ⟨head, _, index, rfl, codes, far, rfl, rfl⟩ := h
      · exact .long bad
      · exact .range codes far
    · intro h
      cases h with
      | long bad => exact .inl bad
      | range codes far => exact .inr ⟨_, _, _, rfl, codes, far, rfl, rfl⟩

theorem readCount_refuses : Refuses readCount BadCount.here := by
  refine (readLong_refuses.here_bind readLong_exact (fun (count : Int64) input cause rest =>
    count.toInt < 0 ∧ (BadLong input cause rest ∨
      ∃ size back n, input = size ++ back ∧ Codes size n ∧ count.toInt = -2 ^ 63 ∧
        cause = .countRange ∧ rest = back)) ?_).here_congr ?_
  · intro count front _
    by_cases sign : 0 ≤ count
    · rw [if_pos sign]
      rw [Int64.le_iff_toInt_le, Int64.toInt_zero] at sign
      exact Refuses.here_pure _ fun input cause rest ⟨negative, _⟩ => by omega
    · rw [if_neg sign]
      rw [Int64.le_iff_toInt_le, Int64.toInt_zero, Int.not_le] at sign
      refine (readLong_refuses.here_bind readLong_exact (fun _ input cause rest =>
        count.toInt = -2 ^ 63 ∧ cause = .countRange ∧ rest = input) ?_).here_congr ?_
      · intro size _ _
        by_cases least : count = Int64.minValue
        · rw [if_pos least]
          simp only [eq_minValue_iff.mp least, true_and]
          exact Refuses.refuse _
        · rw [if_neg least]
          rw [eq_minValue_iff] at least
          exact Refuses.here_pure _ fun input cause rest ⟨same, _⟩ => least same
      · intro input cause rest
        constructor
        · intro h
          obtain bad | ⟨size, back, n, rfl, codes, least, rfl, rfl⟩ := h
          · exact ⟨sign, .inl bad⟩
          · exact ⟨sign, .inr ⟨size, _, n.toInt, rfl, codes, least, rfl, rfl⟩⟩
        · intro h
          obtain ⟨-, bad | ⟨size, back, n, rfl, codes, least, rfl, rfl⟩⟩ := h
          · exact .inl bad
          · obtain ⟨long, same⟩ := codes.exists_toInt
            exact .inr ⟨size, _, long, rfl, same ▸ codes, least, rfl, rfl⟩
  · intro input cause rest
    constructor
    · intro h
      obtain bad | ⟨head, _, count, rfl, codes, sign,
        bad | ⟨size, back, n, rfl, ignored, least, rfl, rfl⟩⟩ := h
      · exact .long bad
      · exact .size codes sign bad
      · rw [← List.append_assoc]
        exact .range (least ▸ codes) ignored
    · intro h
      cases h with
      | long bad => exact .inl bad
      | size codes sign bad =>
        obtain ⟨count, same⟩ := codes.exists_toInt
        exact .inr ⟨_, _, count, rfl, same ▸ codes, by omega, .inl bad⟩
      | range codes ignored =>
        obtain ⟨count, same⟩ := codes.exists_toInt
        refine .inr ⟨_, _, count, List.append_assoc .., same ▸ codes, by omega, .inr ?_⟩
        exact ⟨_, _, _, rfl, ignored, same, rfl, rfl⟩

theorem checkCount_refuses (width done count : Nat) : Refuses (checkCount width done count)
    (Defect.here fun input cause rest => Excess width done count input cause ∧ rest = input) := by
  intro input fault rest
  have short := shorterThan_iff input (Size.mul count width)
  by_cases zero : width = 0
  · subst zero
    rw [checkCount_zero]
    by_cases many : zeroWidthLimit < done + count
    · rw [if_pos many, EStateM.Result.error.injEq]
      constructor
      · intro h
        obtain ⟨rfl, rfl⟩ := h
        exact ⟨_, rfl, .items rfl many, rfl⟩
      · intro h
        obtain ⟨_, rfl, excess, rfl⟩ := h
        cases excess with
        | items => exact ⟨rfl, rfl⟩
        | room wide => exact absurd rfl wide
    · simp only [if_neg many, reduceCtorEq, false_iff]
      intro h
      obtain ⟨_, -, excess, -⟩ := h
      cases excess with
      | items _ more => exact many more
      | room wide => exact wide rfl
  · rw [checkCount_pos zero]
    by_cases many : shorterThan input (Size.mul count width) = true
    · rw [if_pos many, EStateM.Result.error.injEq]
      constructor
      · intro h
        obtain ⟨rfl, rfl⟩ := h
        exact ⟨_, rfl, .room zero (short.mp many), rfl⟩
      · intro h
        obtain ⟨_, rfl, excess, rfl⟩ := h
        cases excess with
        | items narrow => exact absurd narrow zero
        | room => exact ⟨rfl, rfl⟩
    · simp only [if_neg many, reduceCtorEq, false_iff]
      intro h
      obtain ⟨_, -, excess, -⟩ := h
      cases excess with
      | items narrow => exact zero narrow
      | room _ less => exact many (short.mpr less)

theorem readItems_refuses {α : Type} {item : Nat → Reader α} {grammar : Grammar α}
    {bad : Nat → Refusal} (h : ∀ position, Exact (item position) grammar)
    (k : ∀ position, Refuses (item position) (bad position)) (count : Nat) (done : Array α) :
    Refuses (readItems item count done) fun input fault rest => ∃ body values back,
      input = body ++ back ∧ Items grammar body values ∧ values.length < count ∧
        bad (done.size + values.length) back fault rest := by
  induction count generalizing done with
  | zero =>
    refine (Refuses.pure done).congr fun input fault rest => iff_of_false id ?_
    rintro ⟨_, _, _, _, _, less, _⟩
    exact Nat.not_lt_zero _ less
  | succ count ih =>
    refine ((k done.size).bind (h done.size) _ fun value _ _ => ih (done.push value)).congr
      fun input fault rest => ?_
    constructor
    · intro given
      obtain first | ⟨front, _, value, rfl, one, later⟩ := given
      · exact ⟨[], [], input, rfl, .nil, Nat.succ_pos _, first⟩
      · obtain ⟨body, values, back, rfl, items, less, later⟩ := later
        refine ⟨front ++ body, value :: values, back, by simp, .cons one items, by simpa, ?_⟩
        simpa [Nat.add_assoc, Nat.add_comm 1] using later
    · intro given
      obtain ⟨_, _, back, rfl, items, less, bad⟩ := given
      cases items with
      | nil => exact .inl bad
      | cons one items =>
        refine .inr ⟨_, _, _, List.append_assoc .., one, _, _, back, rfl, items,
          by simpa using less, ?_⟩
        simpa [Nat.add_assoc, Nat.add_comm 1] using bad

end Wire

end Clickstream

import Clickstream.Proofs.Varint
import Mathlib.Data.Nat.Digits.Lemmas

namespace Clickstream.Varint
open Wire

/-- What a byte of a code counts beside its high bit: a digit in base 128. -/
def digit (byte : UInt8) : Nat := byte.toNat % 128

theorem digit_lt {bytes : List UInt8} : ∀ d ∈ bytes.map digit, d < 128 := by
  intro d mem
  obtain ⟨byte, -, rfl⟩ := List.mem_map.mp mem
  exact Nat.mod_lt _ (by decide)

theorem digit_of_lt {byte : UInt8} (h : byte < 0x80) : digit byte = byte.toNat :=
  Nat.mod_eq_of_lt (UInt8.lt_iff_toNat_lt.mp h)

/-- The groups of a number are its digits, and the high bit tells the last one. -/
theorem groups_iff {bytes : List UInt8} {n : Nat} :
    Groups bytes n ↔ n = Nat.ofDigits 128 (bytes.map digit) ∧ ∃ front last,
      bytes = front ++ [last] ∧ (∀ byte ∈ front, ¬ byte < 0x80) ∧ last < 0x80 := by
  induction bytes generalizing n with
  | nil =>
    constructor
    · intro h
      exact absurd h.pos (by simp)
    · intro h
      obtain ⟨-, front, last, split, -⟩ := h
      simp at split
  | cons byte tail ih =>
    rw [Groups.cons_iff]
    constructor
    · intro h
      rcases h with ⟨low, rfl, rfl⟩ | ⟨high, m, rest, rfl⟩
      · exact ⟨by simp [digit_of_lt low], [], byte, rfl, by simp, low⟩
      · obtain ⟨rfl, front, last, rfl, marked, low⟩ := ih.mp rest
        exact ⟨by simp [Nat.ofDigits_cons, digit], byte :: front, last, rfl,
          List.forall_mem_cons.mpr ⟨high, marked⟩, low⟩
    · intro h
      obtain ⟨rfl, front, last, split, marked, low⟩ := h
      cases front with
      | nil =>
        obtain ⟨rfl, rfl⟩ : byte = last ∧ tail = [] := by simpa using split
        exact .inl ⟨low, rfl, by simp [digit_of_lt low]⟩
      | cons first front =>
        obtain ⟨rfl, rfl⟩ : byte = first ∧ tail = front ++ [last] := by simpa using split
        obtain ⟨high, marked⟩ := List.forall_mem_cons.mp marked
        exact .inr ⟨high, _, ih.mpr ⟨rfl, front, last, rfl, marked, low⟩,
          by simp [Nat.ofDigits_cons, digit]⟩

/-- The last group is put only for what it counts. -/
theorem eq_zero_of_getLast?_groups {left : Nat} {c : UInt64}
    (h : (groups left c).getLast? = some 0) : c = 0 := by
  induction left generalizing c with
  | zero => simp [groups] at h
  | succ left ih =>
    obtain ⟨-, low, value, out⟩ | ⟨large, low, value, out⟩ := groups_succ left c
    · obtain rfl : low = 0 := by simpa [out] using h
      exact UInt64.toNat_inj.mp value.symm
    · rw [out, List.getLast?_cons, Option.some.injEq] at h
      cases rest : (groups left (c >>> 7)).getLast? with
      | none =>
        obtain rfl : low = 0 := by simpa [rest] using h
        simp at value
      | some last =>
        obtain rfl : last = 0 := by simpa [rest] using h
        have high := high_groups c
        rw [ih rest] at high
        simp at high
        omega

theorem getLast?_encode_ne_zero {n : Int64} (h : n ≠ 0) : (encode n).getLast? ≠ some 0 := by
  intro zero
  have none : (zigzag n).toNat = 0 := congrArg UInt64.toNat (eq_zero_of_getLast?_groups zero)
  rw [toNat_zigzag] at none
  exact h (Int64.toInt_inj.mp (code_inj none))

/-- No digit is written before the last one that counts. -/
theorem digits_encode (n : Int64) :
    (encode n).map digit = if n = 0 then [0] else Nat.digits 128 (code n.toInt) := by
  by_cases zero : n = 0
  · subst zero
    decide
  · obtain ⟨value, front, last, split, -, low⟩ := groups_iff.mp (encode_codes n).groups
    have counts := getLast?_encode_ne_zero zero
    rw [if_neg zero, value, Nat.digits_ofDigits 128 (by decide) _ digit_lt]
    intro _ none
    simp only [split, List.map_append, List.map_cons, List.map_nil, List.getLast_append_singleton,
      digit_of_lt low] at none
    refine counts ?_
    rw [split, List.getLast?_concat, UInt8.toNat_inj.mp (none.trans UInt8.toNat_zero.symm)]

/-- The first byte without the high bit, no further back than the tenth. As the tenth it has room
for one bit. -/
structure Ends (input : List UInt8) (k : Nat) : Prop where
  first : input.findIdx? (· < 0x80) = some k
  within : k ≤ 9
  tenth : k = 9 → ∀ byte, input[k]? = some byte → byte ≤ 1

theorem ofDigits_concat (front : List UInt8) (last : UInt8) :
    Nat.ofDigits 128 ((front ++ [last]).map digit) =
      Nat.ofDigits 128 (front.map digit) + 128 ^ front.length * digit last := by
  simp [Nat.ofDigits_append]

/-- Ten groups go beyond 64 bits only by the last. -/
theorem ofDigits_concat_lt_iff {front : List UInt8} {last : UInt8} (short : front.length ≤ 9)
    (low : last < 0x80) :
    Nat.ofDigits 128 ((front ++ [last]).map digit) < 2 ^ 64 ↔
      (front.length = 9 → last ≤ 1) := by
  have below := Nat.ofDigits_lt_base_pow_length (b := 128) (by decide) (@digit_lt front)
  have small : last.toNat < 128 := UInt8.lt_iff_toNat_lt.mp low
  rw [List.length_map] at below
  rw [ofDigits_concat, digit_of_lt low, UInt8.le_iff_toNat_le]
  rcases Nat.lt_or_eq_of_le short with few | nine
  · have power : 128 ^ front.length ≤ 128 ^ 8 := Nat.pow_le_pow_right (by decide) (by omega)
    have top : 128 ^ front.length * last.toNat ≤ 128 ^ 8 * 127 := Nat.mul_le_mul power (by omega)
    constructor
    · intro _ nine
      omega
    · intro _
      omega
  · rw [nine] at below ⊢
    simp only [true_imp_iff, UInt8.reduceToNat]
    omega

theorem Codes.ends {taken : List UInt8} {n : Int} (h : Codes taken n) (rest : List UInt8) :
    ∃ k, Ends (taken ++ rest) k ∧ taken = (taken ++ rest).take (k + 1) := by
  obtain ⟨value, front, last, rfl, marked, low⟩ := groups_iff.mp h.groups
  have short := h.short
  have fits := value ▸ h.fits
  rw [List.length_append, List.length_singleton] at short
  refine ⟨front.length, ⟨?first, by omega, ?tenth⟩, ?taken⟩
  case first =>
    refine List.findIdx?_eq_some_iff_getElem.mpr ⟨by simp, by simpa using low, fun i before => ?_⟩
    simpa [List.getElem_append, before, Nat.lt_succ_of_lt before] using
      marked _ (List.getElem_mem before)
  case tenth =>
    intro nine byte found
    obtain rfl : last = byte := by simpa using found
    exact (ofDigits_concat_lt_iff (by omega) low).mp fits nine
  case taken => simp [List.take_append]

theorem Ends.codes {input : List UInt8} {k : Nat} (h : Ends input k) : ∃ n : Int64,
    code n.toInt = Nat.ofDigits 128 ((input.take (k + 1)).map digit) ∧
      Codes (input.take (k + 1)) n.toInt := by
  obtain ⟨inside, low, before⟩ := List.findIdx?_eq_some_iff_getElem.mp h.first
  have within := h.within
  have split : input.take (k + 1) = input.take k ++ [input[k]] :=
    (List.take_concat_get' input k inside).symm
  have length : (input.take k).length = k := List.length_take_of_le (by omega)
  have marked : ∀ byte ∈ input.take k, ¬ byte < 0x80 := by
    intro byte mem
    obtain ⟨i, small, rfl⟩ := List.mem_take_iff_getElem.mp mem
    simpa using before i (by omega)
  have low : input[k] < 0x80 := by simpa using low
  have fits : Nat.ofDigits 128 ((input.take (k + 1)).map digit) < 2 ^ 64 := by
    rw [split, ofDigits_concat_lt_iff (by omega) low, length]
    exact fun nine => h.tenth nine _ (List.getElem?_eq_getElem inside)
  have value : code (unzigzag (.ofNat (Nat.ofDigits 128 ((input.take (k + 1)).map digit)))).toInt =
      Nat.ofDigits 128 ((input.take (k + 1)).map digit) := by
    rw [code_unzigzag, UInt64.toNat_ofNat_of_lt' fits]
  refine ⟨_, value, groups_iff.mpr ⟨value, _, _, split, marked, low⟩, ?_, by rwa [value]⟩
  rw [split, List.length_append, length, List.length_singleton]
  omega

/-- What is written for a number is the digits of its code in base 128, none of them to no purpose,
in one put. What is read is whatever number the bytes up to the first one without the high bit stand
for, if it has 64 bits, and nothing of what follows them. -/
theorem longs_exact :
    (∀ n : Int64, ∃ bytes,
      (∀ (σ : Type) [Sink σ], writeLong n = Writer.put (σ := σ) bytes) ∧
      bytes.map digit = (if n = 0 then [0] else Nat.digits 128 (code n.toInt)) ∧
      (1 ≤ bytes.length ∧ bytes.length ≤ 10) ∧
      (∃ front last, bytes = front ++ [last] ∧ (∀ byte ∈ front, 0x80 ≤ byte) ∧ last < 0x80 ∧
        (last = 0 → n = 0)) ∧
      ∀ rest, readLong (bytes ++ rest) = .ok n rest) ∧
    (∀ input : List UInt8,
      ((∃ n rest, readLong input = .ok n rest) ↔ ∃ k, Ends input k) ∧
      ∀ k, Ends input k → ∃ n : Int64,
        code n.toInt = Nat.ofDigits 128 ((input.take (k + 1)).map digit) ∧
        readLong input = .ok n (input.drop (k + 1))) := by
  have read {input : List UInt8} {k : Nat} (h : Ends input k) : ∃ n : Int64,
      code n.toInt = Nat.ofDigits 128 ((input.take (k + 1)).map digit) ∧
        readLong input = .ok n (input.drop (k + 1)) := by
    obtain ⟨n, value, codes⟩ := h.codes
    exact ⟨n, value, (readLong_exact _ _ _).mpr ⟨_, (List.take_append_drop _ _).symm, codes⟩⟩
  refine ⟨fun n => ?written, fun input => ⟨⟨?ends, ?reads⟩, fun k h => read h⟩⟩
  case written =>
    have codes := encode_codes n
    obtain ⟨-, front, last, split, marked, low⟩ := groups_iff.mp codes.groups
    refine ⟨encode n, fun _ _ => rfl, digits_encode n, ⟨codes.groups.pos, codes.short⟩,
      ⟨front, last, split, fun byte mem => UInt8.not_lt.mp (marked byte mem), low, ?_⟩,
      fun rest => (readLong_exact _ _ _).mpr ⟨_, rfl, codes⟩⟩
    intro none
    refine Decidable.byContradiction fun some => getLast?_encode_ne_zero some ?_
    rw [split, List.getLast?_concat, none]
  case ends =>
    intro h
    obtain ⟨n, rest, h⟩ := h
    obtain ⟨taken, rfl, codes⟩ := (readLong_exact _ _ _).mp h
    obtain ⟨k, ends, -⟩ := codes.ends rest
    exact ⟨k, ends⟩
  case reads =>
    intro h
    obtain ⟨k, ends⟩ := h
    obtain ⟨n, -, h⟩ := read ends
    exact ⟨n, _, h⟩

end Clickstream.Varint

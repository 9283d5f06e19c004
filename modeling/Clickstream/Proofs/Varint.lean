import Clickstream.Proofs.Exact
import Clickstream.Wire.Write

namespace Clickstream.Varint

/-- The code of a number: the even ones for numbers from zero up, the odd ones below. -/
def code (n : Int) : Nat := if 0 ≤ n then (2 * n).toNat else (-2 * n - 1).toNat

theorem code_of_nonneg {n : Int} (h : 0 ≤ n) : (code n : Int) = 2 * n := by
  rw [code, if_pos h]
  omega

theorem code_of_neg {n : Int} (h : n < 0) : (code n : Int) = -2 * n - 1 := by
  rw [code, if_neg (by omega)]
  omega

theorem code_inj {m n : Int} (h : code m = code n) : m = n := by
  rcases Int.lt_or_le m 0 with hm | hm <;> rcases Int.lt_or_le n 0 with hn | hn
  all_goals simp only [← Int.natCast_inj, code_of_nonneg, code_of_neg, hm, hn] at h
  all_goals omega

theorem toNat_zigzag (n : Int64) : (zigzag n).toNat = code n.toInt := by
  have split : (zigzag n).toBitVec = (n.toBitVec <<< 1) ^^^ n.toBitVec.sshiftRight 63 := rfl
  have top := n.toBitVec.isLt
  have signed : n.toInt = _ := BitVec.toInt_eq_msb_cond n.toBitVec
  rw [← UInt64.toNat_toBitVec, split]
  cases sign : n.toBitVec.msb with
  | false =>
    have small := BitVec.msb_eq_false_iff_two_mul_lt.mp sign
    have bits : n.toBitVec.sshiftRight 63 = 0#64 := by
      rw [BitVec.sshiftRight_eq_of_msb_false sign]
      apply BitVec.eq_of_toNat_eq
      simp [Nat.shiftRight_eq_div_pow]
      omega
    rw [sign, if_neg (by decide)] at signed
    have := code_of_nonneg (n := n.toInt) (by omega)
    simp [bits, Nat.shiftLeft_eq]
    omega
  | true =>
    have large := BitVec.msb_eq_true_iff_two_mul_ge.mp sign
    have bits : n.toBitVec.sshiftRight 63 = BitVec.allOnes 64 := by
      rw [BitVec.sshiftRight_eq_of_msb_true sign]
      apply BitVec.eq_of_toNat_eq
      simp [Nat.shiftRight_eq_div_pow]
      omega
    rw [sign, if_pos rfl] at signed
    have := code_of_neg (n := n.toInt) (by omega)
    rw [bits, BitVec.xor_allOnes, BitVec.toNat_not]
    simp [Nat.shiftLeft_eq]
    omega

/-- The number that has a code. -/
def unzigzag (code : UInt64) : Int64 := (code >>> 1).toInt64 ^^^ -(code &&& 1).toInt64

theorem code_unzigzag (c : UInt64) : code (unzigzag c).toInt = c.toNat := by
  have top := c.toNat_lt
  have low : (c &&& 1).toNat = c.toNat % 2 := by
    rw [UInt64.toNat_and]
    exact Nat.and_one_is_mod _
  have half : (c >>> 1).toBitVec.toNat = c.toNat / 2 := by
    rw [UInt64.toNat_toBitVec, UInt64.toNat_shiftRight]
    simp [Nat.shiftRight_eq_div_pow]
  have value : (unzigzag c).toInt =
      ((c >>> 1).toBitVec ^^^ -(c &&& 1).toBitVec).toInt := rfl
  rcases Nat.mod_two_eq_zero_or_one c.toNat with even | odd
  · have sign : -(c &&& 1).toBitVec = 0#64 := by
      rw [show (c &&& 1) = 0 from UInt64.toNat_inj.mp (by rw [low, even]; rfl)]
      rfl
    rw [sign, BitVec.xor_zero, BitVec.toInt_eq_toNat_cond, half, if_pos (by omega)] at value
    have := code_of_nonneg (n := (unzigzag c).toInt) (by omega)
    omega
  · have sign : -(c &&& 1).toBitVec = BitVec.allOnes 64 := by
      rw [show (c &&& 1) = 1 from UInt64.toNat_inj.mp (by rw [low, odd]; rfl)]
      rfl
    rw [sign, BitVec.xor_allOnes, BitVec.toInt_eq_toNat_cond, BitVec.toNat_not, half,
      if_neg (by omega)] at value
    have := code_of_neg (n := (unzigzag c).toInt) (by omega)
    omega

/-- Groups of seven bits and the number they make, lowest first. The high bit is set on all but
the last. -/
inductive Groups : List UInt8 → Nat → Prop
  | last {byte : UInt8} : byte < 0x80 → Groups [byte] byte.toNat
  | more {byte : UInt8} {rest : List UInt8} {n : Nat} : ¬ byte < 0x80 → Groups rest n →
    Groups (byte :: rest) (byte.toNat % 128 + 128 * n)

/-- The bytes that may stand for a number: also more of them than it needs, but no more than ten. -/
structure Codes (bytes : List UInt8) (n : Int) : Prop where
  groups : Groups bytes (code n)
  short : bytes.length ≤ 10
  fits : code n < 2 ^ 64

theorem Groups.pos {bytes : List UInt8} {n : Nat} (h : Groups bytes n) : 0 < bytes.length := by
  cases h <;> simp

theorem Groups.lt {bytes : List UInt8} {n : Nat} (h : Groups bytes n) :
    n < 128 ^ bytes.length := by
  induction h with
  | last low => simpa using UInt8.lt_iff_toNat_lt.mp low
  | more _ _ ih =>
    rw [List.length_cons, Nat.pow_succ]
    omega

/-- What has a code is a 64-bit number. -/
theorem Codes.exists_toInt {bytes : List UInt8} {n : Int} (h : Codes bytes n) :
    ∃ long : Int64, long.toInt = n := by
  have fits := h.fits
  refine ⟨.ofInt n, ?_⟩
  rcases Int.lt_or_le n 0 with sign | sign
  · have := code_of_neg sign
    exact Int64.toInt_ofInt_of_le (by omega) (by omega)
  · have := code_of_nonneg sign
    exact Int64.toInt_ofInt_of_le (by omega) (by omega)

theorem low_group (c : UInt64) : (c &&& 0x7f).toUInt8.toNat = c.toNat % 128 := by
  have mask : (0x7f : UInt64).toNat = 2 ^ 7 - 1 := rfl
  rw [UInt64.toNat_toUInt8, UInt64.toNat_and, mask, Nat.and_two_pow_sub_one_eq_mod]
  omega

theorem marked_group {byte : UInt8} (h : byte.toNat < 128) :
    (byte ||| 0x80).toNat = byte.toNat + 128 := by
  have mark : (0x80 : UInt8).toNat = 2 ^ 7 * 1 := rfl
  rw [UInt8.toNat_or, mark, Nat.or_comm, ← Nat.two_pow_add_eq_or_of_lt h]
  omega

theorem high_groups (c : UInt64) : (c >>> 7).toNat = c.toNat / 128 := by
  rw [UInt64.toNat_shiftRight]
  simp [Nat.shiftRight_eq_div_pow]

/-- The groups of a code, one group at a time. -/
theorem groups_succ (left : Nat) (c : UInt64) :
    (c.toNat < 128 ∧ ∃ low : UInt8, low.toNat = c.toNat ∧ groups (left + 1) c = [low]) ∨
    (128 ≤ c.toNat ∧ ∃ low : UInt8, low.toNat = c.toNat % 128 + 128 ∧
      groups (left + 1) c = low :: groups left (c >>> 7)) := by
  have low := low_group c
  have high := high_groups c
  by_cases last : c >>> 7 = 0
  · refine .inl ⟨?_, (c &&& 0x7f).toUInt8, ?_, by simp [groups, last]⟩
    all_goals rw [last] at high; simp at high; omega
  · refine .inr ⟨?_, (c &&& 0x7f).toUInt8 ||| 0x80, ?_, by simp [groups, last]⟩
    · refine Nat.le_of_not_lt fun small => last (UInt64.toNat_inj.mp ?_)
      rw [high]
      simp
      omega
    · rw [marked_group (by omega), low]

theorem groups_groups {left : Nat} {c : UInt64} (h : c.toNat < 128 ^ (left + 1)) :
    Groups (groups (left + 1) c) c.toNat := by
  induction left generalizing c with
  | zero =>
    obtain ⟨small, low, value, out⟩ | ⟨large, _⟩ := groups_succ 0 c
    · rw [out, ← value]
      exact .last (UInt8.lt_iff_toNat_lt.mpr (by rw [value]; exact small))
    · omega
  | succ left ih =>
    obtain ⟨small, low, value, out⟩ | ⟨large, low, value, out⟩ := groups_succ (left + 1) c
    · rw [out, ← value]
      exact .last (UInt8.lt_iff_toNat_lt.mpr (by rw [value]; exact small))
    · have high := high_groups c
      have rest := ih (c := c >>> 7) (by rw [high]; rw [Nat.pow_succ] at h; omega)
      have marked : ¬ low < 0x80 := by
        rw [UInt8.lt_iff_toNat_lt, value]
        simp
      have whole := Groups.more marked rest
      have value : low.toNat % 128 + 128 * (c >>> 7).toNat = c.toNat := by omega
      rw [value] at whole
      rw [out]
      exact whole

/-- No group is written that is not needed. -/
theorem length_groups_le {left m : Nat} {c : UInt64} (h : c.toNat < 128 ^ (m + 1)) :
    (groups left c).length ≤ m + 1 := by
  induction left generalizing m c with
  | zero => simp [groups]
  | succ left ih =>
    obtain ⟨_, low, _, out⟩ | ⟨large, low, _, out⟩ := groups_succ left c
    · simp [out]
    · cases m with
      | zero => omega
      | succ m =>
        have rest := ih (m := m) (c := c >>> 7) (by
          rw [high_groups]
          rw [Nat.pow_succ] at h
          omega)
        simp [out]
        omega

theorem encode_codes (n : Int64) : Codes (encode n) n.toInt := by
  have fits := (zigzag n).toNat_lt
  refine ⟨?_, length_groups_le (m := 9) (by omega), toNat_zigzag n ▸ fits⟩
  rw [← toNat_zigzag]
  exact groups_groups (by omega)

theorem length_encode_le {n : Int64} {size : Nat} (h : code n.toInt < 128 ^ size)
    (pos : 0 < size) : (encode n).length ≤ size := by
  obtain ⟨m, rfl⟩ : ∃ m, size = m + 1 := ⟨size - 1, by omega⟩
  exact length_groups_le (by rwa [toNat_zigzag])

/-- What is written for a number is as short as anything that stands for it. -/
theorem Codes.shortest {bytes : List UInt8} {n : Int64} (h : Codes bytes n.toInt) :
    (encode n).length ≤ bytes.length := length_encode_le h.groups.lt h.groups.pos

/-- A group put above those that are read already. -/
theorem add_group {k : Nat} (hk : k ≤ 9) {done : UInt64} {byte : UInt8}
    (hd : done.toNat < 2 ^ (7 * k)) (fits : byte.toNat % 128 * 2 ^ (7 * k) < 2 ^ 64) :
    (done ||| (byte &&& 0x7f).toUInt64 <<< .ofNat (7 * k)).toNat =
      done.toNat + 2 ^ (7 * k) * (byte.toNat % 128) := by
  have low : (byte &&& 0x7f).toNat = byte.toNat % 128 := by
    have mask : (0x7f : UInt8).toNat = 2 ^ 7 - 1 := rfl
    rw [UInt8.toNat_and, mask, Nat.and_two_pow_sub_one_eq_mod]
  have shift : (UInt64.ofNat (7 * k)).toNat % 64 = 7 * k := by
    rw [UInt64.toNat_ofNat']
    omega
  rw [UInt64.toNat_or, UInt64.toNat_shiftLeft, UInt8.toNat_toUInt64, low, shift, Nat.shiftLeft_eq,
    Nat.mod_eq_of_lt fits, Nat.or_comm, Nat.mul_comm, ← Nat.two_pow_add_eq_or_of_lt hd]
  omega

/-- A group fits at its place, unless it is the tenth and has more than one bit. -/
theorem group_fits {k : Nat} (hk : k ≤ 9) {byte : UInt8} (h : ¬ (k = 9 ∧ 1 < byte.toNat)) :
    byte.toNat % 128 * 2 ^ (7 * k) < 2 ^ 64 := by
  rcases Nat.lt_or_ge k 9 with below | _
  · have : 2 ^ (7 * k) ≤ 2 ^ 56 := Nat.pow_le_pow_right (by omega) (by omega)
    calc byte.toNat % 128 * 2 ^ (7 * k) ≤ 127 * 2 ^ 56 := Nat.mul_le_mul (by omega) this
      _ < 2 ^ 64 := by decide
  · have : 2 ^ (7 * k) ≤ 2 ^ 63 := Nat.pow_le_pow_right (by omega) (by omega)
    calc byte.toNat % 128 * 2 ^ (7 * k) ≤ 1 * 2 ^ 63 := Nat.mul_le_mul (by omega) this
      _ < 2 ^ 64 := by decide

theorem Groups.cons_iff {byte : UInt8} {tail : List UInt8} {n : Nat} :
    Groups (byte :: tail) n ↔ (byte < 0x80 ∧ tail = [] ∧ n = byte.toNat) ∨
      (¬ byte < 0x80 ∧ ∃ m, Groups tail m ∧ n = byte.toNat % 128 + 128 * m) := by
  constructor
  · intro h
    cases h with
    | last low => exact .inl ⟨low, rfl, rfl⟩
    | more high rest => exact .inr ⟨high, _, rest, rfl⟩
  · intro h
    rcases h with ⟨low, rfl, rfl⟩ | ⟨high, m, rest, rfl⟩
    · exact .last low
    · exact .more high rest

/-- No code is empty, so the first byte belongs to it. -/
theorem Groups.exists_append_iff {byte : UInt8} {tail rest : List UInt8}
    {fits : List UInt8 → Nat → Prop} :
    (∃ taken n, byte :: tail = taken ++ rest ∧ Groups taken n ∧ fits taken n) ↔
      ∃ taken n, tail = taken ++ rest ∧ Groups (byte :: taken) n ∧ fits (byte :: taken) n := by
  constructor
  · intro h
    obtain ⟨taken, n, split, groups, fit⟩ := h
    cases taken with
    | nil => exact absurd groups.pos (by simp)
    | cons head taken =>
      obtain ⟨rfl, rfl⟩ : byte = head ∧ tail = taken ++ rest := by simpa using split
      exact ⟨taken, n, rfl, groups, fit⟩
  · intro h
    obtain ⟨taken, n, rfl, groups, fit⟩ := h
    exact ⟨byte :: taken, n, rfl, groups, fit⟩

open Wire

section Reading

variable {k : Nat} {done total : UInt64} {byte : UInt8} {tail rest : List UInt8}

/-- Reads the groups of a code, by an amount above those that are read. -/
def readGroups (amount : Nat) (done : UInt64) : Reader UInt64 := fun input =>
  Reader.turns Datum.readGroup input (amount, done) input

theorem readGroups_nil (amount : Nat) (done : UInt64) :
    readGroups amount done [] = .error (.here (.truncated 1 0)) [] := rfl

theorem full_iff : (7 * k = 63 ∧ 1 < byte) ↔ k = 9 ∧ 1 < byte.toNat := by
  rw [UInt8.lt_iff_toNat_lt]
  exact and_congr_left fun _ => by omega

/-- The tenth group has room for one bit. -/
theorem readGroup_tenth (tenth : k = 9 ∧ 1 < byte.toNat) :
    (Datum.readGroup (7 * k, done) : Reader _) (byte :: tail) =
      .error (.here .varintLength) tail := by
  simp only [Datum.readGroup, Bind.bind, EStateM.bind, readByte_cons, if_pos (full_iff.mpr tenth)]
  rfl

theorem readGroup_cons (room : ¬ (k = 9 ∧ 1 < byte.toNat)) :
    (Datum.readGroup (7 * k, done) : Reader _) (byte :: tail) =
      if byte < 0x80 then .ok (.inr (done ||| (byte &&& 0x7f).toUInt64 <<< .ofNat (7 * k))) tail
      else .ok (.inl (7 * (k + 1), done ||| (byte &&& 0x7f).toUInt64 <<< .ofNat (7 * k))) tail := by
  simp only [Datum.readGroup, Bind.bind, EStateM.bind, readByte_cons, if_neg (mt full_iff.mp room)]
  by_cases low : byte < 0x80
  · simp only [if_pos low]
    rfl
  · simp only [if_neg low]
    rfl

theorem readGroups_tenth (tenth : k = 9 ∧ 1 < byte.toNat) :
    readGroups (7 * k) done (byte :: tail) = .error (.here .varintLength) tail := by
  simp only [readGroups, Reader.turns, Bind.bind, EStateM.bind, readGroup_tenth tenth]

theorem readGroups_cons (room : ¬ (k = 9 ∧ 1 < byte.toNat)) :
    readGroups (7 * k) done (byte :: tail) =
      if byte < 0x80 then .ok (done ||| (byte &&& 0x7f).toUInt64 <<< .ofNat (7 * k)) tail
      else readGroups (7 * (k + 1)) (done ||| (byte &&& 0x7f).toUInt64 <<< .ofNat (7 * k)) tail := by
  simp only [readGroups, Reader.turns, Bind.bind, EStateM.bind, readGroup_cons room]
  by_cases low : byte < 0x80
  · simp only [if_pos low]
    rfl
  · simp only [if_neg low]

/-- After `k` groups the reader takes what groups follow, as long as they fit. -/
theorem readGroups_ok_iff {input : List UInt8} (hk : k ≤ 9) (hd : done.toNat < 2 ^ (7 * k)) :
    readGroups (7 * k) done input = .ok total rest ↔ ∃ taken n, input = taken ++ rest ∧
      Groups taken n ∧ taken.length + k ≤ 10 ∧ total.toNat = done.toNat + 2 ^ (7 * k) * n := by
  induction input generalizing k done with
  | nil =>
    simp only [readGroups_nil, reduceCtorEq, false_iff]
    intro h
    obtain ⟨taken, n, split, groups, -⟩ := h
    have := groups.pos
    simp_all
  | cons byte tail ih =>
    have small : byte < 0x80 ↔ byte.toNat < 128 := UInt8.lt_iff_toNat_lt
    rw [Groups.exists_append_iff]
    simp only [Groups.cons_iff, List.length_cons]
    by_cases tenth : k = 9 ∧ 1 < byte.toNat
    · rw [readGroups_tenth tenth]
      simp only [reduceCtorEq, false_iff]
      obtain ⟨rfl, large⟩ := tenth
      have above := total.toNat_lt
      intro h
      obtain ⟨taken, n, rfl, ⟨low, rfl, rfl⟩ | ⟨high, m, others, rfl⟩, short, value⟩ := h
      · omega
      · have := others.pos
        omega
    · have sum := add_group hk hd (group_fits hk tenth)
      rw [readGroups_cons tenth]
      by_cases low : byte < 0x80
      · rw [Nat.mod_eq_of_lt (small.mp low)] at sum
        simp only [low, ↓reduceIte, EStateM.Result.ok.injEq, not_true, true_and, false_and,
          or_false]
        constructor
        · intro h
          obtain ⟨rfl, rfl⟩ := h
          exact ⟨[], byte.toNat, rfl, ⟨rfl, rfl⟩, by simp; omega, sum⟩
        · intro h
          obtain ⟨taken, n, rfl, ⟨rfl, rfl⟩, short, value⟩ := h
          exact ⟨UInt64.toNat_inj.mp (sum.trans value.symm), rfl⟩
      · have power : 2 ^ (7 * (k + 1)) = 2 ^ (7 * k) * 128 := by rw [Nat.mul_succ, Nat.pow_add]
        have bound : 2 ^ (7 * k) * (byte.toNat % 128) ≤ 2 ^ (7 * k) * 127 :=
          Nat.mul_le_mul_left _ (by omega)
        have below : k < 9 := by
          rw [small] at low
          omega
        have value (m : Nat) : 2 ^ (7 * k) * (byte.toNat % 128 + 128 * m) =
            2 ^ (7 * k) * (byte.toNat % 128) + 2 ^ (7 * k) * 128 * m := by
          rw [Nat.mul_add, Nat.mul_assoc]
        simp only [low, ↓reduceIte, not_false_eq_true, true_and, false_and, false_or]
        rw [ih (by omega) (by omega), sum, power]
        constructor
        · intro h
          obtain ⟨taken, m, rfl, groups, short, total⟩ := h
          exact ⟨taken, _, rfl, ⟨m, groups, rfl⟩, by omega, by rw [value]; omega⟩
        · intro h
          obtain ⟨taken, n, rfl, ⟨m, groups, rfl⟩, short, total⟩ := h
          exact ⟨taken, m, rfl, groups, by omega, by rw [value] at total; omega⟩

end Reading

theorem readLong_eq : readLong = unzigzag <$> readGroups 0 0 := rfl

theorem readLong_exact : Reader.Exact readLong fun taken n => Codes taken n.toInt := by
  intro input n rest
  have read (c : UInt64) : readGroups 0 0 input = .ok c rest ↔ ∃ taken n, input = taken ++ rest ∧
      Groups taken n ∧ taken.length + 0 ≤ 10 ∧ c.toNat = 0 + 2 ^ (7 * 0) * n :=
    readGroups_ok_iff (k := 0) (by omega) (by decide)
  rw [readLong_eq, Reader.map_ok_iff]
  constructor
  · intro given
    obtain ⟨c, h, rfl⟩ := given
    obtain ⟨taken, m, split, groups, short, value⟩ := (read c).mp h
    have same : m = code (unzigzag c).toInt := by
      rw [code_unzigzag]
      simpa using value.symm
    have fits := c.toNat_lt
    exact ⟨taken, split, same ▸ groups, by omega, code_unzigzag c ▸ fits⟩
  · intro given
    obtain ⟨taken, split, codes⟩ := given
    refine ⟨zigzag n, (read _).mpr ⟨taken, _, split, codes.groups, codes.short, ?_⟩, ?_⟩
    · simp [toNat_zigzag]
    · exact Int64.toInt_inj.mp (code_inj (by rw [code_unzigzag, toNat_zigzag]))

end Clickstream.Varint

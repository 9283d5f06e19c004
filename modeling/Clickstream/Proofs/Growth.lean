import Clickstream.Proofs.Schedule
import Mathlib.Data.Nat.Find

namespace Clickstream

/-- The sizes that follow the first are those that the next one goes through. -/
theorem growth_next (start k : Nat) : growth (nextCapacity start) k = growth start (k + 1) := by
  induction k with
  | zero => rfl
  | succ k ih => exact congrArg nextCapacity ih

/-- Each step is one byte at least, up to the largest size. -/
theorem add_le_growth (start k : Nat) : min (start + k) Size.largest ≤ growth start k := by
  induction k with
  | zero => exact Nat.min_le_left _ _
  | succ k ih =>
    have step : Size.add (growth start k) 1 ≤ growth start (k + 1) := Nat.le_max_right _ _
    simp only [Size.add] at step
    omega

/-- Every size is reached in the end, and there is a first time that it is. -/
theorem exists_least_growth (start : Nat) {length : Nat} (h : length ≤ Size.largest) :
    ∃ k, length ≤ growth start k ∧ ∀ j < k, growth start j < length := by
  have reached : ∃ k, length ≤ growth start k := by
    refine ⟨length, Nat.le_trans ?_ (add_le_growth start length)⟩
    omega
  exact ⟨Nat.find reached, Nat.find_spec reached,
    fun j before => Nat.lt_of_not_le (Nat.find_min reached before)⟩

theorem exists_least_double (start length : Nat) :
    ∃ m, length ≤ 2 ^ m * max start 1 ∧ ∀ j < m, 2 ^ j * max start 1 < length := by
  have reached : ∃ m, length ≤ 2 ^ m * max start 1 := by
    refine ⟨length, Nat.le_trans (Nat.le_of_lt Nat.lt_two_pow_self) ?_⟩
    exact Nat.le_mul_of_pos_right _ (by omega)
  exact ⟨Nat.find reached, Nat.find_spec reached,
    fun j before => Nat.lt_of_not_le (Nat.find_min reached before)⟩

theorem nextCapacity_mono {a b : Nat} (h : a ≤ b) : nextCapacity a ≤ nextCapacity b := by
  have scaled : Size.mul a 11 ≤ Size.mul b 11 := by
    simp only [Size.mul]
    omega
  have rounded : Size.add (Size.mul a 11) 5 ≤ Size.add (Size.mul b 11) 5 := by
    simp only [Size.add]
    omega
  have next : Size.add a 1 ≤ Size.add b 1 := by
    simp only [Size.add]
    omega
  have tenths := Nat.div_le_div_right (c := 10) rounded
  simp only [nextCapacity]
  omega

theorem growth_add (start j k : Nat) : growth start (j + k) = growth (growth start j) k := by
  induction k with
  | zero => rfl
  | succ k ih => exact congrArg nextCapacity ih

theorem growth_le_largest {start : Nat} (range : start ≤ Size.largest) (k : Nat) :
    growth start k ≤ Size.largest := by
  cases k with
  | zero => exact range
  | succ k => exact nextCapacity_le_largest _

/-- What a size has beyond four bytes grows by a tenth of it at every step: rounding takes away
less than that tenth of four. -/
theorem growth_tenths {start k : Nat} (range : start ≤ Size.largest)
    (small : growth start k ≤ 2 ^ 60) : 11 ^ k * (start - 4) ≤ 10 ^ k * (growth start k - 4) := by
  induction k with
  | zero => exact Nat.le_refl _
  | succ k ih =>
    have before : growth start k ≤ growth start (k + 1) :=
      le_nextCapacity (growth_le_largest range k)
    have tenth : 11 * (growth start k - 4) ≤ 10 * (growth start (k + 1) - 4) := by
      have step : growth start (k + 1) = nextCapacity (growth start k) := rfl
      simp only [nextCapacity, Size.add, Size.mul, Size.largest] at step
      omega
    calc 11 ^ (k + 1) * (start - 4) = 11 * (11 ^ k * (start - 4)) := by
          rw [Nat.pow_succ, Nat.mul_comm (11 ^ k), Nat.mul_assoc]
      _ ≤ 11 * (10 ^ k * (growth start k - 4)) :=
          Nat.mul_le_mul_left 11 (ih (Nat.le_trans before small))
      _ = 10 ^ k * (11 * (growth start k - 4)) := Nat.mul_left_comm _ _ _
      _ ≤ 10 ^ k * (10 * (growth start (k + 1) - 4)) := Nat.mul_le_mul_left _ tenth
      _ = 10 ^ (k + 1) * (growth start (k + 1) - 4) := by rw [Nat.pow_succ, Nat.mul_assoc]

/-- Eight steps double a size. Below 32 it is the least step, of one byte, that makes up for what
rounding takes away. -/
theorem double_le_growth {start : Nat} (some : 0 < start) (range : start ≤ Size.largest) :
    min (2 * start) (2 ^ 60) ≤ growth start 8 := by
  by_cases tiny : start < 32
  · have table : ∀ n < 32, 0 < n → 2 * n ≤ growth n 8 := by decide
    have := table start tiny some
    omega
  · by_cases small : growth start 8 ≤ 2 ^ 60
    · have tenths := growth_tenths range small
      omega
    · omega

/-- One step makes a byte of nothing, and then each eight steps double it. -/
theorem doubled_le_growth {start : Nat} (range : start ≤ Size.largest) (m : Nat) :
    min (2 ^ m * max start 1) (2 ^ 60) ≤ growth start (1 + 8 * m) := by
  induction m with
  | zero =>
    have step : Size.add start 1 ≤ growth start 1 := Nat.le_max_right _ _
    simp only [Size.add, Size.largest] at step range
    simp only [Nat.pow_zero, Nat.one_mul, Nat.mul_zero, Nat.add_zero]
    omega
  | succ m ih =>
    have some : 0 < 2 ^ m * max start 1 := Nat.mul_pos (Nat.two_pow_pos m) (by omega)
    have doubled := double_le_growth (by omega) (growth_le_largest range (1 + 8 * m))
    rw [← growth_add] at doubled
    have more : 2 ^ (m + 1) * max start 1 = 2 * (2 ^ m * max start 1) := by
      rw [Nat.pow_succ, Nat.mul_comm (2 ^ m), Nat.mul_assoc]
    rw [more, Nat.mul_succ, ← Nat.add_assoc]
    omega

end Clickstream

import Clickstream.Capacity

namespace Clickstream

/-- A size and a tenth of it, rounded to nearest, however large the size is. -/
def tenthMore (size : Nat) : Nat := (11 * size + 5) / 10

/-- The next size as it is meant to be: nothing on the way to it stops at the largest size. -/
def exactCapacity (observed : Nat) : Nat :=
  min Size.largest (max (observed + 1) (tenthMore observed))

variable {observed : Nat}

/-- A product that is a size itself is divided as it is. -/
theorem nextCapacity_of_fits (fits : 11 * observed ≤ Size.largest) :
    nextCapacity observed = exactCapacity observed := by
  have product : Size.mul observed 11 = 11 * observed := by
    simp only [Size.mul]
    omega
  have tenth : Size.add (11 * observed) 5 / 10 = min Size.largest (tenthMore observed) := by
    simp only [Size.add, Size.largest, tenthMore] at fits ⊢
    omega
  have more : observed + 1 ≤ Size.largest := by
    simp only [Size.largest] at fits ⊢
    omega
  simp only [nextCapacity, exactCapacity, product, tenth, Size.add_eq more]
  omega

/-- Beyond that the quotient is a tenth of the largest size, whatever was observed, and the one byte
more soon is all that is left of the growth. -/
theorem nextCapacity_of_beyond (beyond : Size.largest < 11 * observed) :
    nextCapacity observed = max (Size.largest / 10) (Size.add observed 1) := by
  have product : Size.mul observed 11 = Size.largest := by
    simp only [Size.mul]
    omega
  have sum : Size.add Size.largest 5 = Size.largest := Nat.min_eq_right (Nat.le_add_right _ _)
  simp only [nextCapacity, product, sum]

theorem nextCapacity_lt_tenthMore (range : observed ≤ Size.largest)
    (beyond : Size.largest < 11 * observed) : nextCapacity observed < tenthMore observed := by
  rw [nextCapacity_of_beyond beyond]
  simp only [Size.add, Size.largest, tenthMore] at range beyond ⊢
  omega

theorem nextCapacity_of_last (range : observed ≤ Size.largest)
    (last : Size.largest ≤ observed + 1) : nextCapacity observed = exactCapacity observed := by
  have beyond : Size.largest < 11 * observed := by
    simp only [Size.largest] at last ⊢
    omega
  rw [nextCapacity_of_beyond beyond]
  simp only [exactCapacity, tenthMore, Size.add, Size.largest] at range last ⊢
  omega

/-- Up to the last two sizes, a product that is no size makes the next one too small. -/
theorem nextCapacity_ne_of_beyond (range : observed + 1 < Size.largest)
    (beyond : Size.largest < 11 * observed) : nextCapacity observed ≠ exactCapacity observed := by
  have short := nextCapacity_lt_tenthMore (by omega) beyond
  have below : nextCapacity observed < Size.largest := by
    rw [nextCapacity_of_beyond beyond]
    simp only [Size.add, Size.largest] at range ⊢
    omega
  simp only [exactCapacity]
  omega

namespace CapacityHint

/-- What is committed is the next size after the one that was observed. -/
theorem propose_committed {hint : CapacityHint} (h : (hint.propose observed).committed = true) :
    (hint.propose observed).hint.current = nextCapacity observed := by
  by_cases same : hint.current = observed
  · rw [propose, if_pos same]
  · rw [propose, if_neg same] at h
    cases h

end CapacityHint

/-- The next size is a rounded tenth more, or the largest size if that is beyond it, exactly as long
as eleven times the observed size is a size: above, only the last two sizes grow as they are meant
to. A commit that has room for a rounded tenth falls short of it exactly where that product is no
size. -/
theorem nextCapacity_exact_iff (range : observed ≤ Size.largest) :
    (nextCapacity observed = exactCapacity observed ↔
      11 * observed ≤ Size.largest ∨ Size.largest ≤ observed + 1) ∧
    ∀ hint : CapacityHint, (hint.propose observed).committed = true →
      max (observed + 1) (tenthMore observed) ≤ Size.largest →
      (tenthMore observed ≤ (hint.propose observed).hint.current ↔
        11 * observed ≤ Size.largest) := by
  constructor
  · constructor
    · intro exact
      by_cases fits : 11 * observed ≤ Size.largest
      · exact .inl fits
      · refine .inr (Nat.le_of_not_lt fun before => ?_)
        exact nextCapacity_ne_of_beyond before (Nat.lt_of_not_le fits) exact
    · intro h
      rcases h with fits | last
      · exact nextCapacity_of_fits fits
      · exact nextCapacity_of_last range last
  · intro hint committed possible
    rw [hint.propose_committed committed]
    constructor
    · intro enough
      exact Nat.le_of_not_lt fun beyond =>
        Nat.not_lt_of_le enough (nextCapacity_lt_tenthMore range beyond)
    · intro fits
      rw [nextCapacity_of_fits fits, exactCapacity, Nat.min_eq_right possible]
      exact Nat.le_max_right _ _

/-- The last size of which the product is a size and the first of which it is none: one byte is
missing there. -/
theorem nextCapacity_exact_around :
    nextCapacity 1676976733973595601 = exactCapacity 1676976733973595601 ∧
    nextCapacity 1676976733973595602 ≠ exactCapacity 1676976733973595602 ∧
    ¬ tenthMore 1676976733973595602 ≤
      (CapacityHint.propose ⟨1676976733973595602⟩ 1676976733973595602).hint.current := by
  obtain ⟨last, -⟩ := nextCapacity_exact_iff
    (show 1676976733973595601 ≤ Size.largest by decide)
  obtain ⟨first, commits⟩ := nextCapacity_exact_iff
    (show 1676976733973595602 ≤ Size.largest by decide)
  exact ⟨last.mpr (by decide), mt first.mp (by decide),
    mt (commits ⟨1676976733973595602⟩ rfl (by decide)).mp (by decide)⟩

/-- Half of all sizes up, the hint is left with a growth by one byte, and a tenth would fit. -/
theorem nextCapacity_half :
    exactCapacity 0x8000_0000_0000_0000 = 10145709240540253389 ∧
    max 0x8000_0000_0000_0001 (tenthMore 0x8000_0000_0000_0000) ≤ Size.largest ∧
    CapacityHint.propose ⟨0x8000_0000_0000_0000⟩ 0x8000_0000_0000_0000 =
      ⟨true, ⟨0x8000_0000_0000_0001⟩⟩ ∧
    nextCapacity 0x8000_0000_0000_0000 = 0x8000_0000_0000_0001 ∧
    nextCapacity 0x8000_0000_0000_0000 ≠ exactCapacity 0x8000_0000_0000_0000 := by
  decide

end Clickstream

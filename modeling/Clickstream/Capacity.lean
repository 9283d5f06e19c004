import Clickstream.Basic

namespace Clickstream

/-- The next size to try after a buffer of this size was too small: a tenth more, rounded to
nearest, and at least one byte more. -/
def nextCapacity (observed : Nat) : Nat :=
  max (Size.add (Size.mul observed 11) 5 / 10) (Size.add observed 1)

theorem lt_nextCapacity {observed : Nat} (h : observed < Size.largest) :
    observed < nextCapacity observed := by
  simp only [nextCapacity, Size.add]
  omega

theorem nextCapacity_le_largest (observed : Nat) : nextCapacity observed ≤ Size.largest := by
  simp only [nextCapacity, Size.add]
  omega

theorem le_nextCapacity {observed : Nat} (h : observed ≤ Size.largest) :
    observed ≤ nextCapacity observed := by
  simp only [nextCapacity, Size.add]
  omega

/-- The buffer size that encoders share. It only grows. -/
structure CapacityHint where
  current : Nat
  deriving DecidableEq, Repr

namespace CapacityHint

/-- Where a process starts. -/
def initial : CapacityHint := ⟨100⟩

/-- The outcome of a proposal to grow, and the hint after it. -/
structure Proposal where
  committed : Bool
  hint : CapacityHint
  deriving DecidableEq, Repr

/-- Grows the hint if it still is what the caller observed. Whoever comes late has nothing to do:
the hint has grown already. -/
def propose (hint : CapacityHint) (observed : Nat) : Proposal :=
  if hint.current = observed then ⟨true, ⟨nextCapacity observed⟩⟩ else ⟨false, hint⟩

end CapacityHint

end Clickstream

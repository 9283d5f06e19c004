import Clickstream.Capacity

namespace Clickstream.CapacityHint

/-- What a caller does to a hint that others use too, and what it learns from it. -/
inductive Access where
  | read (caller value : Nat)
  | proposal (caller observed : Nat) (committed : Bool)
  deriving DecidableEq, Repr

namespace Access

def committed : Access → Bool
  | read .. => false
  | proposal _ _ committed => committed

/-- Whether this is the growth of the hint from a size. -/
def commits (size : Nat) : Access → Bool
  | read .. => false
  | proposal _ observed committed => committed && observed == size

end Access

/-- One access, between the hint before it and the hint after it. Nothing comes between the
comparison that a proposal makes and its effect. -/
inductive Step (hint : CapacityHint) : Access → CapacityHint → Prop
  | read (caller : Nat) : Step hint (.read caller hint.current) hint
  | propose (caller observed : Nat) :
    Step hint (.proposal caller observed (hint.propose observed).committed)
      (hint.propose observed).hint

/-- Accesses one after the other. Whoever is next may read or propose, and may propose whatever it
likes: what it read itself, what others read, or a size that the hint never had. -/
inductive Run : CapacityHint → List Access → CapacityHint → Prop
  | done (hint : CapacityHint) : Run hint [] hint
  | next {first second last : CapacityHint} {access : Access} {history : List Access} :
    Step first access second → Run second history last → Run first (access :: history) last

end Clickstream.CapacityHint

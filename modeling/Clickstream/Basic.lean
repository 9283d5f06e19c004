namespace Clickstream

/-- How much an event matters. -/
inductive Level where
  | debug
  | info
  | warn
  deriving DecidableEq, Repr

def Level.name : Level → String
  | .debug => "DEBUG"
  | .info => "INFO"
  | .warn => "WARN"

namespace Size

/-- Sizes are 64-bit. Their sums and products stop at the largest one. -/
def largest : Nat := 0xffff_ffff_ffff_ffff

def add (a b : Nat) : Nat := min (a + b) largest

def mul (a b : Nat) : Nat := min (a * b) largest

theorem add_le_largest (a b : Nat) : add a b ≤ largest := Nat.min_le_right _ _

theorem add_le (a b : Nat) : add a b ≤ a + b := Nat.min_le_left _ _

theorem add_eq {a b : Nat} (h : a + b ≤ largest) : add a b = a + b := Nat.min_eq_left h

theorem mul_le (a b : Nat) : mul a b ≤ a * b := Nat.min_le_left _ _

end Size

end Clickstream

import Clickstream.Basic

namespace Clickstream

/-- What words, cells and bytes have no answer for. -/
inductive Trap where
  | index (length position : Nat)
  | shift (amount : Nat)
  | negation
  | addition (left right : Nat)
  | pastEnd (wanted available : Nat)
  | endless
  deriving DecidableEq, Repr

/-- How a step fails: with a fault, which its caller can look at, or with none. -/
inductive Failure (ε : Type) where
  | fault (fault : ε)
  | trap (trap : Trap)
  deriving DecidableEq, Repr

/-- A step of operations that are not defined everywhere. -/
abbrev Machine (ε σ : Type) := EStateM (Failure ε) σ

namespace Machine

variable {ε σ α β : Type}

def trap (trap : Trap) : Machine ε σ α := throw (.trap trap)

/-- A step that knows of no traps. -/
def plain (step : EStateM ε σ α) : Machine ε σ α := fun state =>
  match step state with
  | .ok value state => .ok value state
  | .error fault state => .error (.fault fault) state

/-- A fault seen from one node further up. Nothing is seen of a trap. -/
def inside (outward : ε → ε) (step : Machine ε σ α) : Machine ε σ α := fun state =>
  match step state with
  | .ok value state => .ok value state
  | .error (.fault fault) state => .error (.fault (outward fault)) state
  | .error (.trap trap) state => .error (.trap trap) state

/-- The sum of two words, of which the largest is given. -/
def add (largest left right : Nat) : Machine ε σ Nat :=
  if left + right ≤ largest then pure (left + right) else trap (.addition left right)

/-- A word of 64 bits is shifted by fewer. -/
def shift (word : Nat → α) (amount : Nat) : Machine ε σ α :=
  if amount < 64 then pure (word amount) else trap (.shift amount)

def negate (n : Int64) : Machine ε σ Int64 :=
  if n = Int64.minValue then trap .negation else pure (-n)

def store (cells : List α) (position : Nat) (value : α) : Machine ε σ (List α) :=
  if position < cells.length then pure (cells.set position value)
  else trap (.index cells.length position)

def front (cells : List α) (length : Nat) : Machine ε σ (List α) :=
  if length ≤ cells.length then pure (cells.take length) else trap (.index cells.length length)

/-- Takes turns until one has a result. A turn that leaves as much to do as there was before it is
a trap: nothing would end the loop. -/
def loop (left : β → σ → Nat) (turn : β → Machine ε σ (β ⊕ α)) (b : β) : Machine ε σ α :=
  fun state =>
    match turn b state with
    | .error failure state => .error failure state
    | .ok (.inr value) state => .ok value state
    | .ok (.inl next) rest =>
      if left next rest < left b state then loop left turn next rest
      else .error (.trap .endless) rest
termination_by state => left b state

theorem plain_bind (first : EStateM ε σ α) (second : α → EStateM ε σ β) :
    plain (first >>= second) = plain first >>= fun a => plain (second a) := by
  funext state
  simp only [plain, Bind.bind, EStateM.bind]
  cases first state <;> rfl

theorem plain_map (f : α → β) (step : EStateM ε σ α) : plain (f <$> step) = f <$> plain step := by
  funext state
  simp only [plain, Functor.map, EStateM.map]
  cases step state <;> rfl

theorem plain_ok {step : EStateM ε σ α} {state next : σ} {a : α} (h : step state = .ok a next) :
    plain step state = .ok a next := by simp only [plain, h]

theorem plain_error {step : EStateM ε σ α} {state next : σ} {fault : ε}
    (h : step state = .error fault next) : plain step state = .error (.fault fault) next := by
  simp only [plain, h]

theorem plain_ne_trap (step : EStateM ε σ α) (state next : σ) (trap : Trap) :
    plain step state ≠ .error (.trap trap) next := by
  simp only [plain]
  cases step state <;> simp

theorem bind_ok {first : Machine ε σ α} {state next : σ} {a : α} (h : first state = .ok a next)
    (second : α → Machine ε σ β) : (first >>= second) state = second a next := by
  simp only [Bind.bind, EStateM.bind, h]

theorem bind_failed {first : Machine ε σ α} {state next : σ} {failure : Failure ε}
    (h : first state = .error failure next) (second : α → Machine ε σ β) :
    (first >>= second) state = .error failure next := by
  simp only [Bind.bind, EStateM.bind, h]

theorem add_eq {largest left right : Nat} (h : left + right ≤ largest) :
    (add largest left right : Machine ε σ Nat) = pure (left + right) := if_pos h

theorem shift_eq {amount : Nat} (word : Nat → α) (h : amount < 64) :
    (shift word amount : Machine ε σ α) = pure (word amount) := if_pos h

theorem negate_eq {n : Int64} (h : n ≠ Int64.minValue) :
    (negate n : Machine ε σ Int64) = pure (-n) := if_neg h

theorem store_eq {cells : List α} {position : Nat} (value : α) (h : position < cells.length) :
    (store cells position value : Machine ε σ (List α)) = pure (cells.set position value) :=
  if_pos h

theorem front_eq {cells : List α} {length : Nat} (h : length ≤ cells.length) :
    (front cells length : Machine ε σ (List α)) = pure (cells.take length) := if_pos h

section

variable {left : β → σ → Nat} {turn : β → Machine ε σ (β ⊕ α)} {b next : β} {state rest : σ}

theorem loop_done {a : α} (h : turn b state = .ok (.inr a) rest) :
    loop left turn b state = .ok a rest := by rw [loop, h]

theorem loop_failed {failure : Failure ε} (h : turn b state = .error failure rest) :
    loop left turn b state = .error failure rest := by rw [loop, h]

theorem loop_next (h : turn b state = .ok (.inl next) rest)
    (less : left next rest < left b state) :
    loop left turn b state = loop left turn next rest := by
  rw [loop, h]
  exact if_pos less

theorem loop_endless (h : turn b state = .ok (.inl next) rest)
    (more : ¬ left next rest < left b state) :
    loop left turn b state = .error (.trap .endless) rest := by
  rw [loop, h]
  exact if_neg more

end

/-- One outcome, in states that are related. -/
inductive Alike {τ : Type} (related : σ → τ → Prop) :
    EStateM.Result ε σ α → EStateM.Result ε τ α → Prop where
  | ok {value : α} {state : σ} {other : τ} (h : related state other) :
    Alike related (.ok value state) (.ok value other)
  | error {failure : ε} {state : σ} {other : τ} (h : related state other) :
    Alike related (.error failure state) (.error failure other)

theorem Alike.mono {τ : Type} {related weaker : σ → τ → Prop} {left : EStateM.Result ε σ α}
    {right : EStateM.Result ε τ α} (h : Alike related left right)
    (weak : ∀ state other, related state other → weaker state other) : Alike weaker left right := by
  cases h with
  | ok h => exact .ok (weak _ _ h)
  | error h => exact .error (weak _ _ h)

end Machine

end Clickstream

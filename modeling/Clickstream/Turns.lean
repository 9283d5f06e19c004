import Clickstream.Pool

namespace Clickstream

/-- Whose turn it is: that of the caller at a place, or of somebody who has nothing to encode and
proposes that the hint grow from any size at all. -/
inductive Turn where
  | caller (place : Nat)
  | outsider (observed : Nat)
  deriving DecidableEq, Repr

/-- One call of the encoder: the place of its caller, and how many calls that caller makes before
it. -/
structure Call where
  place : Nat
  number : Nat
  deriving DecidableEq, Repr

/-- The capacity of the attempt that comes next, if an attempt does. -/
def Phase.attempt? : Phase → Option Nat
  | .idle => none
  | .loaded capacity => some capacity
  | .overflowed _ _ => none

/-- The capacities of the attempts that calls in these phases make. -/
def Phase.attempts (course : List Phase) : List Nat := course.filterMap Phase.attempt?

@[simp] theorem Phase.attempts_nil : attempts [] = [] := rfl

theorem Phase.attempts_concat (course : List Phase) (phase : Phase) :
    attempts (course ++ [phase]) = attempts course ++ phase.attempt?.toList := by
  cases h : phase.attempt? <;> simp [attempts, h]

namespace Pool

def turn (pool : Pool) : Turn → Pool
  | .caller place => pool.step place
  | .outsider observed => { pool with hint := (pool.hint.propose observed).hint }

def play (pool : Pool) (turns : List Turn) : Pool := turns.foldl turn pool

/-- The phase in which a turn finds a call. The turns of others do not find it, nor do those that
its caller has before it or after it. -/
def phase? (pool : Pool) (call : Call) : Turn → Option Phase
  | .caller place =>
    if place = call.place then
      match pool.callers[place]? with
      | some caller => if caller.results.length = call.number then some caller.phase else none
      | none => none
    else none
  | .outsider _ => none

/-- The phases in which turns find a call, one after the other. -/
def course (call : Call) : Pool → List Turn → List Phase
  | _, [] => []
  | pool, turn :: turns => (pool.phase? call turn).toList ++ course call (pool.turn turn) turns

end Pool

namespace Call

def job? (call : Call) (work : List (List Job)) : Option Job :=
  work[call.place]?.bind (·[call.number]?)

/-- The capacities that the call tries, from the start of the pool on. -/
def attempts (call : Call) (pool : Pool) (turns : List Turn) : List Nat :=
  Phase.attempts (pool.course call turns)

def Answered (call : Call) (pool : Pool) : Prop :=
  ∃ caller, pool.callers[call.place]? = some caller ∧ call.number < caller.results.length

end Call

end Clickstream

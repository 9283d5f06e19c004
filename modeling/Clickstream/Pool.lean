import Clickstream.Encoder

namespace Clickstream

/-- A record to encode, and whose it is. -/
structure Job where
  owner : Owner
  record : Record

/-- Where a caller stands in the job that it is at. The hint may have moved on since it was read. -/
inductive Phase where
  | idle
  | loaded (capacity : Nat)
  | overflowed (capacity : Nat) (overflow : Overflow)
  deriving DecidableEq, Repr

/-- A caller of an encoder: the jobs it has left, what it has done of the first of them, and what
it has to show for those before. -/
structure Caller where
  jobs : List Job
  attempts : Nat
  phase : Phase
  results : List (Except SerializationError (Buffer × Report))
  events : List EncoderEvent

namespace Caller

/-- What the caller has to show, without the reports of how it went. -/
def answers (caller : Caller) : List (Except SerializationError Buffer) :=
  caller.results.map (·.map Prod.fst)

def start (jobs : List Job) : Caller := ⟨jobs, 0, .idle, [], []⟩

/-- The caller at its next job, with the result of this one. -/
def finish (caller : Caller) (rest : List Job)
    (result : Except SerializationError (Buffer × Report)) (events : List EncoderEvent) : Caller :=
  ⟨rest, 0, .idle, caller.results ++ [result], caller.events ++ events⟩

/-- One indivisible step of a caller: to read the hint, to try at the capacity that was read, or to
propose that the hint grow from there. -/
def step (hint : CapacityHint) (caller : Caller) : CapacityHint × Caller :=
  match caller.jobs with
  | [] => (hint, caller)
  | job :: rest =>
    match caller.phase with
    | .idle => (hint, { caller with
        attempts := Encoder.countAttempt caller.attempts, phase := .loaded hint.current })
    | .loaded capacity =>
      match Encoder.attempt capacity job.record with
      | .encoded bytes =>
        let report := ⟨caller.attempts, capacity, bytes.length⟩
        (hint, caller.finish rest (.ok (⟨job.owner, bytes⟩, report)) [])
      | .mismatch mismatch =>
        (hint, caller.finish rest (.error ⟨job.owner, mismatch⟩) [.failure job.owner mismatch])
      | .overflow overflow => (hint, { caller with phase := .overflowed capacity overflow })
    | .overflowed capacity overflow =>
      let proposal := hint.propose capacity
      let event := .retry job.owner overflow (nextCapacity capacity) proposal.committed
        caller.attempts
      (proposal.hint, { caller with phase := .idle, events := caller.events ++ [event] })

variable {hint : CapacityHint} {caller : Caller} {job : Job} {rest : List Job} {capacity : Nat}

theorem step_done (next : caller.jobs = []) : caller.step hint = (hint, caller) := by
  simp only [step, next]

theorem step_load (next : caller.jobs = job :: rest) (phase : caller.phase = .idle) :
    caller.step hint = (hint, { caller with
      attempts := Encoder.countAttempt caller.attempts, phase := .loaded hint.current }) := by
  simp only [step, next, phase]

theorem step_encoded (next : caller.jobs = job :: rest) (phase : caller.phase = .loaded capacity)
    {bytes : List UInt8} (attempt : Encoder.attempt capacity job.record = .encoded bytes) :
    caller.step hint = (hint, caller.finish rest
      (.ok (⟨job.owner, bytes⟩, ⟨caller.attempts, capacity, bytes.length⟩)) []) := by
  simp only [step, next, phase, attempt]

theorem step_mismatch (next : caller.jobs = job :: rest) (phase : caller.phase = .loaded capacity)
    {mismatch : Located Mismatch}
    (attempt : Encoder.attempt capacity job.record = .mismatch mismatch) :
    caller.step hint = (hint, caller.finish rest (.error ⟨job.owner, mismatch⟩)
      [.failure job.owner mismatch]) := by
  simp only [step, next, phase, attempt]

theorem step_overflow (next : caller.jobs = job :: rest) (phase : caller.phase = .loaded capacity)
    {overflow : Overflow} (attempt : Encoder.attempt capacity job.record = .overflow overflow) :
    caller.step hint = (hint, { caller with phase := .overflowed capacity overflow }) := by
  simp only [step, next, phase, attempt]

theorem step_propose (next : caller.jobs = job :: rest) {overflow : Overflow}
    (phase : caller.phase = .overflowed capacity overflow) : caller.step hint =
      ((hint.propose capacity).hint, { caller with
        phase := .idle
        events := caller.events ++ [.retry job.owner overflow (nextCapacity capacity)
          (hint.propose capacity).committed caller.attempts] }) := by
  simp only [step, next, phase]

end Caller

/-- Callers that share a hint, and nothing else. -/
structure Pool where
  hint : CapacityHint
  callers : List Caller

namespace Pool

def start (hint : CapacityHint) (work : List (List Job)) : Pool := ⟨hint, work.map .start⟩

/-- The caller at this place makes a step. -/
def step (pool : Pool) (place : Nat) : Pool :=
  match pool.callers[place]? with
  | none => pool
  | some caller =>
    let (hint, caller) := caller.step pool.hint
    ⟨hint, pool.callers.set place caller⟩

/-- The places tell who is next, one step at a time. -/
def run (pool : Pool) (schedule : List Nat) : Pool := schedule.foldl step pool

def Finished (pool : Pool) : Prop := ∀ caller ∈ pool.callers, caller.jobs = []

end Pool

end Clickstream

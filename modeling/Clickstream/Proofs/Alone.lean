import Clickstream.Pool

namespace Clickstream

namespace Caller

/-- The hint and a caller after so many steps that no other caller comes between. -/
def alone (hint : CapacityHint) (caller : Caller) : Nat → CapacityHint × Caller
  | 0 => (hint, caller)
  | turns + 1 => (caller.step hint).2.alone (caller.step hint).1 turns

variable {hint later : CapacityHint} {caller other : Caller} {job : Job} {rest : List Job}

theorem alone_succ (h : caller.step hint = (later, other)) (turns : Nat) :
    caller.alone hint (turns + 1) = other.alone later turns := by
  simp only [alone, h]

/-- A caller that has the hint to itself does what the encoder does. -/
theorem alone_encodeAfter (hint : CapacityHint) {caller : Caller} (next : caller.jobs = job :: rest)
    (idle : caller.phase = .idle) : ∃ turns, caller.alone hint turns =
      let encoding := Encoder.encodeAfter caller.attempts job.owner job.record hint
      (encoding.hint, caller.finish rest encoding.result encoding.events) := by
  let attempts := Encoder.countAttempt caller.attempts
  let loaded : Caller := { caller with attempts, phase := .loaded hint.current }
  have load : caller.step hint = (hint, loaded) := step_load next idle
  have ready : loaded.jobs = job :: rest := next
  cases outcome : Encoder.attempt hint.current job.record with
  | encoded bytes =>
    have finish : loaded.step hint = (hint, _) := step_encoded ready rfl outcome
    rw [Encoder.encodeAfter_encoded outcome]
    exact ⟨2, by rw [alone_succ load, alone_succ finish]; rfl⟩
  | mismatch mismatch =>
    have finish : loaded.step hint = (hint, _) := step_mismatch ready rfl outcome
    rw [Encoder.encodeAfter_mismatch outcome]
    exact ⟨2, by rw [alone_succ load, alone_succ finish]; rfl⟩
  | overflow overflow =>
    let grown : CapacityHint := ⟨nextCapacity hint.current⟩
    let full : Caller := { loaded with phase := .overflowed hint.current overflow }
    let retry : EncoderEvent := .retry job.owner overflow grown.current true attempts
    let again : Caller := { full with phase := .idle, events := caller.events ++ [retry] }
    have refuse : loaded.step hint = (hint, full) := step_overflow ready rfl outcome
    have held : full.jobs = job :: rest := next
    have propose : full.step hint = (grown, again) := by
      rw [step_propose held rfl]
      simp [CapacityHint.propose, grown, again, retry, full, loaded]
    have nearer : Size.largest - grown.current < Size.largest - hint.current := by
      have small := Encoder.lt_largest_of_overflow outcome
      have larger : hint.current < grown.current := lt_nextCapacity small
      omega
    have waits : again.jobs = job :: rest := next
    obtain ⟨turns, done⟩ := alone_encodeAfter grown waits rfl
    refine ⟨turns + 3, ?_⟩
    rw [alone_succ load, alone_succ refuse, alone_succ propose, done,
      Encoder.encodeAfter_overflow outcome]
    simp [finish, again, full, loaded, retry, grown, attempts]
termination_by Size.largest - hint.current
decreasing_by assumption

theorem alone_add (m n : Nat) (h : caller.alone hint m = (later, other)) :
    caller.alone hint (m + n) = other.alone later n := by
  induction m generalizing hint caller with
  | zero =>
    cases h
    rw [Nat.zero_add]
  | succ m ih =>
    rw [Nat.succ_add]
    exact ih h

/-- Left to itself a caller comes to the end of its jobs. -/
theorem alone_done (hint : CapacityHint) (idle : caller.phase = .idle) :
    ∃ turns, (caller.alone hint turns).2.jobs = [] := by
  induction left : caller.jobs generalizing hint caller with
  | nil => exact ⟨0, left⟩
  | cons job rest ih =>
    obtain ⟨m, first⟩ := alone_encodeAfter hint left idle
    generalize Encoder.encodeAfter caller.attempts job.owner job.record hint = encoding at first
    have waits : (caller.finish rest encoding.result encoding.events).phase = .idle := rfl
    obtain ⟨n, others⟩ := ih encoding.hint waits rfl
    exact ⟨m + n, by rw [alone_add m n first]; exact others⟩

end Caller

namespace Pool

variable {pool : Pool} {place : Nat} {caller : Caller}

theorem run_append (pool : Pool) (schedule more : List Nat) :
    pool.run (schedule ++ more) = (pool.run schedule).run more := List.foldl_append

theorem step_of_caller (found : pool.callers[place]? = some caller) : pool.step place =
    ⟨(caller.step pool.hint).1, pool.callers.set place (caller.step pool.hint).2⟩ := by
  simp only [step, found]

theorem length_run (pool : Pool) (schedule : List Nat) :
    (pool.run schedule).callers.length = pool.callers.length := by
  induction schedule generalizing pool with
  | nil => rfl
  | cons place schedule ih =>
    rw [run, List.foldl_cons]
    refine (ih (pool.step place)).trans ?_
    unfold step
    split <;> simp

/-- Turns that one caller has in a row leave the others as they are. -/
theorem run_replicate (found : pool.callers[place]? = some caller) (turns : Nat) :
    pool.run (.replicate turns place) = ⟨(caller.alone pool.hint turns).1,
      pool.callers.set place (caller.alone pool.hint turns).2⟩ := by
  obtain ⟨inside, here⟩ := List.getElem?_eq_some_iff.mp found
  induction turns generalizing pool caller with
  | zero =>
    subst here
    simp [run, Caller.alone]
  | succ turns ih =>
    have next : (pool.step place).callers[place]? = some (caller.step pool.hint).2 := by
      simp [step_of_caller found, inside]
    have rest := ih next (List.getElem?_eq_some_iff.mp next).1 (List.getElem?_eq_some_iff.mp next).2
    simp only [step_of_caller found, List.set_set] at rest
    rw [List.replicate_succ, run, List.foldl_cons, step_of_caller found]
    exact rest

/-- The callers before a place are brought to the end of their jobs, one after the other. -/
theorem exists_finished_below (idle : ∀ caller ∈ pool.callers, caller.phase = .idle) (n : Nat) :
    ∃ schedule, ∀ (place : Nat) (caller : Caller),
      (pool.run schedule).callers[place]? = some caller →
      caller.jobs = [] ∨ n ≤ place ∧ caller.phase = .idle := by
  induction n with
  | zero =>
    refine ⟨[], fun place caller found => .inr ⟨Nat.zero_le _, ?_⟩⟩
    exact idle caller (List.mem_of_getElem? found)
  | succ n ih =>
    obtain ⟨schedule, before⟩ := ih
    by_cases waiting : ∃ caller,
      (pool.run schedule).callers[n]? = some caller ∧ caller.phase = .idle
    · obtain ⟨caller, found, waits⟩ := waiting
      obtain ⟨turns, done⟩ := Caller.alone_done (pool.run schedule).hint waits
      refine ⟨schedule ++ .replicate turns n, fun place other here => ?_⟩
      rw [run_append, run_replicate found, List.getElem?_set] at here
      by_cases same : n = place
      · rw [if_pos same, if_pos (List.getElem?_eq_some_iff.mp found).1] at here
        exact .inl (Option.some.inj here ▸ done)
      · rw [if_neg same] at here
        rcases before place other here with finished | ⟨above, still⟩
        · exact .inl finished
        · exact .inr ⟨by omega, still⟩
    · refine ⟨schedule, fun place caller here => ?_⟩
      rcases before place caller here with finished | ⟨above, still⟩
      · exact .inl finished
      · have other : n ≠ place := by
          intro h
          subst h
          exact waiting ⟨caller, here, still⟩
        exact .inr ⟨by omega, still⟩

/-- Every pool can be run to its end. -/
theorem exists_finished (hint : CapacityHint) (work : List (List Job)) :
    ∃ schedule, ((Pool.start hint work).run schedule).Finished := by
  have idle : ∀ caller ∈ (Pool.start hint work).callers, caller.phase = .idle := by
    intro caller mem
    obtain ⟨jobs, -, rfl⟩ := List.mem_map.mp mem
    rfl
  obtain ⟨schedule, before⟩ := exists_finished_below idle work.length
  refine ⟨schedule, fun caller mem => ?_⟩
  obtain ⟨place, found⟩ := List.mem_iff_getElem?.mp mem
  rcases before place caller found with finished | ⟨above, -⟩
  · exact finished
  · have inside := (List.getElem?_eq_some_iff.mp found).1
    rw [length_run, Pool.start, List.length_map] at inside
    omega

end Pool

end Clickstream

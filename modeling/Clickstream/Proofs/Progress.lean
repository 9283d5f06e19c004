import Mathlib.Data.List.Chain
import Clickstream.Turns
import Clickstream.Proofs.Growth

namespace Clickstream

/-- What may become of a hint in one turn, whoever has it. -/
def CapacityHint.Moved (hint later : CapacityHint) : Prop :=
  later = hint ∨ later = ⟨nextCapacity hint.current⟩

theorem CapacityHint.propose_moved (hint : CapacityHint) (observed : Nat) :
    hint.Moved (hint.propose observed).hint := by
  unfold propose
  split
  · rename_i same
    subst same
    exact .inr rfl
  · exact .inl rfl

theorem CapacityHint.Moved.range {hint later : CapacityHint} (h : hint.Moved later)
    (range : hint.current ≤ Size.largest) : later.current ≤ Size.largest := by
  rcases h with rfl | rfl
  · exact range
  · exact nextCapacity_le_largest _

/-- A hint that was at this size once, and is there still or has grown from there. -/
def Passed (capacity hint : Nat) : Prop := hint = capacity ∨ nextCapacity capacity ≤ hint

theorem Passed.moved {capacity : Nat} {hint later : CapacityHint} (h : Passed capacity hint.current)
    (moved : hint.Moved later) (range : hint.current ≤ Size.largest) :
    Passed capacity later.current := by
  rcases moved with rfl | rfl
  · exact h
  · rcases h with rfl | grown
    · exact .inr (Nat.le_refl _)
    · exact .inr (Nat.le_trans grown (le_nextCapacity range))

/-- Whoever proposes to grow from a size that the hint had finds it grown. -/
theorem Passed.propose {capacity : Nat} {hint : CapacityHint} (h : Passed capacity hint.current) :
    nextCapacity capacity ≤ (hint.propose capacity).hint.current := by
  unfold CapacityHint.propose
  split
  · exact Nat.le_refl _
  · rcases h with same | grown
    · contradiction
    · exact grown

def Overflows (record : Record) (capacity : Nat) : Prop :=
  ∃ overflow, Encoder.attempt capacity record = .overflow overflow

/-- Capacities tried one after the other, each no less than the next size after the one before. -/
def Climbs (attempts : List Nat) : Prop :=
  attempts.IsChain fun capacity later => nextCapacity capacity ≤ later

/-- How a call is placed for its next step, after these attempts and so many turns, if the hint is
at this size. -/
def Phase.Leads (attempts : List Nat) (turns hint : Nat) : Phase → Prop
  | .idle => turns = 3 * attempts.length ∧ ∀ last ∈ attempts.getLast?, nextCapacity last ≤ hint
  | .loaded capacity => turns = 3 * attempts.length + 1 ∧
    (∀ last ∈ attempts.getLast?, nextCapacity last ≤ capacity) ∧ Passed capacity hint
  | .overflowed capacity _ => turns + 1 = 3 * attempts.length ∧
    attempts.getLast? = some capacity ∧ Passed capacity hint

/-- A call that its caller is at, and that no capacity was enough for yet. -/
structure Underway (record : Record) (hint : Nat) (phase : Phase) (course : List Phase) : Prop where
  climbs : Climbs (Phase.attempts course)
  refused : ∀ capacity ∈ Phase.attempts course, Overflows record capacity
  leads : phase.Leads (Phase.attempts course) course.length hint

/-- A call that was answered, after an attempt that did not overflow. -/
structure Over (record : Record) (course : List Phase) : Prop where
  climbs : Climbs (Phase.attempts course)
  refused : ∀ capacity ∈ (Phase.attempts course).dropLast, Overflows record capacity
  turns : course.length + 1 = 3 * (Phase.attempts course).length

theorem Underway.start (record : Record) (hint : Nat) : Underway record hint .idle [] where
  climbs := .nil
  refused := by simp
  leads := by simp [Phase.Leads]

/-- Others may make the hint grow while a call is between two of its steps. -/
theorem Underway.moved {record : Record} {hint later : CapacityHint} {phase : Phase}
    {course : List Phase} (h : Underway record hint.current phase course)
    (moved : hint.Moved later) (range : hint.current ≤ Size.largest) :
    Underway record later.current phase course := by
  refine ⟨h.climbs, h.refused, ?_⟩
  have leads := h.leads
  cases phase with
  | idle =>
    have grown : hint.current ≤ later.current := by
      rcases moved with rfl | rfl
      · exact Nat.le_refl _
      · exact le_nextCapacity range
    exact ⟨leads.1, fun last mem => Nat.le_trans (leads.2 last mem) grown⟩
  | loaded capacity => exact ⟨leads.1, leads.2.1, leads.2.2.moved moved range⟩
  | overflowed capacity overflow => exact ⟨leads.1, leads.2.1, leads.2.2.moved moved range⟩

theorem Climbs.concat {attempts : List Nat} {capacity : Nat} (h : Climbs attempts)
    (last : ∀ last ∈ attempts.getLast?, nextCapacity last ≤ capacity) :
    Climbs (attempts ++ [capacity]) := by
  refine List.isChain_append.mpr ⟨h, .singleton _, ?_⟩
  intro before mem after new
  simp only [List.head?_cons, Option.mem_def, Option.some.injEq] at new
  subst new
  exact last before mem

namespace Caller

variable {job : Job} {rest : List Job} {hint : CapacityHint} {caller : Caller} {course : List Phase}

theorem step_moved (hint : CapacityHint) (caller : Caller) : hint.Moved (caller.step hint).1 := by
  unfold step
  split
  · exact .inl rfl
  · split
    · exact .inl rfl
    · split <;> exact .inl rfl
    · exact hint.propose_moved _

/-- A step answers the job that the caller is at, or leaves it to be answered. -/
theorem step_jobs (hint : CapacityHint) (caller : Caller) :
    ((caller.step hint).2.jobs = caller.jobs ∧
      (caller.step hint).2.results.length = caller.results.length) ∨
    ((caller.step hint).2.jobs = caller.jobs.tail ∧ (caller.step hint).2.phase = .idle ∧
      (caller.step hint).2.results.length = caller.results.length + 1) := by
  unfold step
  split
  · exact .inl ⟨rfl, rfl⟩
  · rename_i job rest next
    split
    · exact .inl ⟨rfl, rfl⟩
    · split
      · exact .inr ⟨by simp [finish, next], rfl, by simp [finish]⟩
      · exact .inr ⟨by simp [finish, next], rfl, by simp [finish]⟩
      · exact .inl ⟨rfl, rfl⟩
    · exact .inl ⟨rfl, rfl⟩

/-- A step of a call that is underway: the call stays so, with one more turn to its course, or is
answered. -/
theorem step_underway (h : Underway job.record hint.current caller.phase course)
    (next : caller.jobs = job :: rest) :
    ((caller.step hint).2.results.length = caller.results.length ∧
      Underway job.record (caller.step hint).1.current (caller.step hint).2.phase
        (course ++ [caller.phase])) ∨
    ((caller.step hint).2.results.length = caller.results.length + 1 ∧
      Over job.record (course ++ [caller.phase])) := by
  have leads := h.leads
  cases phase : caller.phase with
  | idle =>
    rw [phase] at leads
    obtain ⟨turns, last⟩ := leads
    have none : Phase.attempts (course ++ [.idle]) = Phase.attempts course := by
      simp [Phase.attempts_concat, Phase.attempt?]
    rw [step_load next phase]
    refine .inl ⟨rfl, none ▸ h.climbs, none ▸ h.refused, ?_⟩
    rw [none]
    exact ⟨by rw [List.length_append, turns]; rfl, last, .inl rfl⟩
  | loaded capacity =>
    rw [phase] at leads
    obtain ⟨turns, last, passed⟩ := leads
    have tried : Phase.attempts (course ++ [.loaded capacity]) =
      Phase.attempts course ++ [capacity] := Phase.attempts_concat course _
    have climbs := h.climbs.concat last
    have answered : Over job.record (course ++ [Phase.loaded capacity]) := by
      refine ⟨tried ▸ climbs, ?_, ?_⟩
      · rw [tried, List.dropLast_concat]
        exact h.refused
      · rw [tried, List.length_append, List.length_append, turns]
        simp only [List.length_singleton]
        omega
    cases outcome : Encoder.attempt capacity job.record with
    | encoded bytes =>
      rw [step_encoded next phase outcome]
      exact .inr ⟨by simp [finish], answered⟩
    | mismatch mismatch =>
      rw [step_mismatch next phase outcome]
      exact .inr ⟨by simp [finish], answered⟩
    | overflow overflow =>
      rw [step_overflow next phase outcome]
      refine .inl ⟨rfl, tried ▸ climbs, ?_, ?_⟩
      · rw [tried]
        intro other mem
        rcases List.mem_append.mp mem with mem | mem
        · exact h.refused other mem
        · obtain rfl := List.mem_singleton.mp mem
          exact ⟨overflow, outcome⟩
      · rw [tried]
        refine ⟨?_, by simp, passed⟩
        simp only [List.length_append, List.length_singleton, turns]
        omega
  | overflowed capacity overflow =>
    rw [phase] at leads
    obtain ⟨turns, last, passed⟩ := leads
    have none : Phase.attempts (course ++ [.overflowed capacity overflow]) =
      Phase.attempts course := by simp [Phase.attempts_concat, Phase.attempt?]
    rw [step_propose next phase]
    refine .inl ⟨rfl, none ▸ h.climbs, none ▸ h.refused, ?_⟩
    rw [none]
    refine ⟨by rw [List.length_append, ← turns]; rfl, ?_⟩
    intro other mem
    obtain rfl : capacity = other := by simpa [last] using mem
    exact passed.propose

end Caller

/-- Where a call stands after its course: its caller has it before it still, is at it, or has its
answer. -/
inductive Call.Stands (call : Call) (record : Record) (hint : Nat) (caller : Caller) :
    List Phase → Prop
  | ahead : caller.results.length < call.number → Stands call record hint caller []
  | underway {course : List Phase} : caller.results.length = call.number →
    Underway record hint caller.phase course → Stands call record hint caller course
  | past {course : List Phase} : call.number < caller.results.length →
    Over record course → Stands call record hint caller course

namespace Call.Stands

variable {call : Call} {jobs : List Job} {job : Job} {hint later : CapacityHint} {caller : Caller}
  {course : List Phase}

theorem moved (h : call.Stands job.record hint.current caller course) (moved : hint.Moved later)
    (range : hint.current ≤ Size.largest) :
    call.Stands job.record later.current caller course := by
  cases h with
  | ahead before => exact .ahead before
  | underway at_it underway => exact .underway at_it (underway.moved moved range)
  | past after ended => exact .past after ended

/-- Its caller makes a step, and the course grows if that step is one of the call. -/
theorem step (h : call.Stands job.record hint.current caller course)
    (kept : caller.jobs = jobs.drop caller.results.length)
    (asked : jobs[call.number]? = some job) :
    call.Stands job.record (caller.step hint).1.current (caller.step hint).2
      (course ++ if caller.results.length = call.number then [caller.phase] else []) := by
  cases h with
  | ahead before =>
    rw [if_neg (by omega), List.append_nil]
    rcases caller.step_jobs hint with ⟨-, same⟩ | ⟨-, idle, more⟩
    · exact .ahead (same ▸ before)
    · rcases Nat.lt_or_eq_of_le before with far | near
      · exact .ahead (by omega)
      · exact .underway (by omega) (idle ▸ .start _ _)
  | underway at_it underway =>
    rw [if_pos at_it]
    have next : caller.jobs = job :: jobs.drop (call.number + 1) := by
      obtain ⟨inside, here⟩ := List.getElem?_eq_some_iff.mp asked
      rw [kept, at_it, List.drop_eq_getElem_cons inside, here]
    rcases Caller.step_underway underway next with ⟨same, underway⟩ | ⟨more, ended⟩
    · exact .underway (same.trans at_it) underway
    · exact .past (by omega) ended
  | past after ended =>
    rw [if_neg (by omega), List.append_nil]
    rcases caller.step_jobs hint with ⟨-, same⟩ | ⟨-, -, more⟩
    · exact .past (by omega) ended
    · exact .past (by omega) ended

end Call.Stands

/-- A pool in which a call for this record, among these jobs of its caller, has had this course. -/
structure Pool.Follows (call : Call) (jobs : List Job) (record : Record) (pool : Pool)
    (course : List Phase) : Prop where
  range : pool.hint.current ≤ Size.largest
  stands : ∃ caller, pool.callers[call.place]? = some caller ∧
    caller.jobs = jobs.drop caller.results.length ∧
    call.Stands record pool.hint.current caller course

namespace Pool

variable {call : Call} {jobs : List Job} {job : Job} {pool : Pool} {course : List Phase}

theorem turn_moved (pool : Pool) (turn : Turn) : pool.hint.Moved (pool.turn turn).hint := by
  cases turn with
  | outsider observed => exact pool.hint.propose_moved observed
  | caller place =>
    cases found : pool.callers[place]? with
    | none =>
      simp only [Pool.turn, Pool.step, found]
      exact .inl rfl
    | some caller =>
      simp only [Pool.turn, Pool.step, found]
      exact caller.step_moved pool.hint

/-- The turns of others leave a call where it stands, though the hint may move. -/
theorem Follows.other (h : pool.Follows call jobs job.record course) {turn : Turn}
    (other : (pool.turn turn).callers[call.place]? = pool.callers[call.place]?)
    (apart : pool.phase? call turn = none) :
    (pool.turn turn).Follows call jobs job.record (course ++ (pool.phase? call turn).toList) := by
  obtain ⟨caller, found, kept, stands⟩ := h.stands
  have moved := pool.turn_moved turn
  rw [apart, Option.toList_none, List.append_nil]
  exact ⟨moved.range h.range, caller, other.trans found, kept, stands.moved moved h.range⟩

theorem Follows.turn (h : pool.Follows call jobs job.record course)
    (asked : jobs[call.number]? = some job) (turn : Turn) :
    (pool.turn turn).Follows call jobs job.record (course ++ (pool.phase? call turn).toList) := by
  cases turn with
  | outsider observed => exact h.other rfl rfl
  | caller place =>
    by_cases own : place = call.place
    · subst own
      obtain ⟨caller, found, kept, stands⟩ := h.stands
      have inside := (List.getElem?_eq_some_iff.mp found).1
      refine ⟨(pool.turn_moved _).range h.range, (caller.step pool.hint).2, ?_, ?_, ?_⟩
      · simp only [Pool.turn, Pool.step, found]
        exact List.getElem?_set_self inside
      · rcases caller.step_jobs pool.hint with ⟨same, length⟩ | ⟨less, -, more⟩
        · rw [same, length, kept]
        · rw [less, more, kept, List.tail_drop]
      · have next := stands.step kept asked
        simp only [Pool.turn, Pool.step, found, phase?, ↓reduceIte]
        split
        · rename_i at_it
          rw [if_pos at_it] at next
          exact next
        · rename_i away
          rw [if_neg away] at next
          exact next
    · refine h.other ?_ (by simp only [phase?, if_neg own])
      cases found : pool.callers[place]? with
      | none => simp only [Pool.turn, Pool.step, found]
      | some caller =>
        simp only [Pool.turn, Pool.step, found]
        rw [List.getElem?_set_ne own]

theorem Follows.play (h : pool.Follows call jobs job.record course)
    (asked : jobs[call.number]? = some job) (turns : List Turn) :
    (pool.play turns).Follows call jobs job.record (course ++ pool.course call turns) := by
  induction turns generalizing pool course with
  | nil =>
    rw [Pool.course, List.append_nil]
    exact h
  | cons turn turns ih =>
    rw [Pool.course, ← List.append_assoc]
    exact ih (h.turn asked turn)

theorem Follows.start {hint : CapacityHint} (range : hint.current ≤ Size.largest)
    {work : List (List Job)} (assigned : work[call.place]? = some jobs) :
    (Pool.start hint work).Follows call jobs job.record [] := by
  refine ⟨range, .start jobs, by simp [Pool.start, assigned], rfl, ?_⟩
  rcases Nat.eq_zero_or_pos call.number with first | later
  · exact .underway first.symm (.start _ _)
  · exact .ahead later

end Pool

/-- A record that can be encoded overflows what is too small for it. -/
theorem Overflows.lt_length {record : Record} {capacity : Nat} {bytes : List UInt8}
    (h : Overflows record capacity)
    (encoded : Wire.encode record.schema record.value = .ok bytes)
    (short : bytes.length ≤ Size.largest) : capacity < bytes.length := by
  obtain ⟨overflow, full⟩ := h
  rw [Encoder.attempt_of_ok capacity encoded short] at full
  split at full
  · cases full
  · omega

theorem not_overflows {record : Record} {mismatch : Located Mismatch}
    (refused : Wire.encode record.schema record.value = .error mismatch) (capacity : Nat) :
    ¬ Overflows record capacity := by
  rintro ⟨overflow, full⟩
  rw [Encoder.attempt_of_error capacity refused] at full
  cases full

namespace Climbs

variable {attempts : List Nat} {first : Nat}

theorem growth_le (h : Climbs attempts) (head : attempts.head? = some first) (i : Nat)
    (inside : i < attempts.length) : growth first i ≤ attempts[i] := by
  induction i with
  | zero =>
    rw [List.head?_eq_getElem?, List.getElem?_eq_getElem inside, Option.some.injEq] at head
    exact Nat.le_of_eq head.symm
  | succ i ih =>
    have before := nextCapacity_mono (ih (by omega))
    exact Nat.le_trans before (List.isChain_iff_getElem.mp h i inside)

/-- All attempts but the last are too small, so there is one more of them at most than there are
sizes on the way that are too small. -/
theorem length_le {length k : Nat} (h : Climbs attempts) (head : attempts.head? = some first)
    (small : ∀ capacity ∈ attempts.dropLast, capacity < length)
    (enough : length ≤ growth first k) : attempts.length ≤ k + 1 := by
  by_contra more
  have inside : k < attempts.dropLast.length := by
    rw [List.length_dropLast]
    omega
  have below := small _ (List.getElem_mem inside)
  have above := h.growth_le head k (by omega)
  rw [List.getElem_dropLast] at below
  omega

/-- Eight sizes on the way are enough to double, after one that is for a hint of zero. -/
theorem length_le_doubled {length m : Nat} (h : Climbs attempts)
    (head : attempts.head? = some first)
    (small : ∀ capacity ∈ attempts.dropLast, capacity < length) (short : length ≤ 2 ^ 60)
    (enough : length ≤ 2 ^ m * max first 1) : attempts.length ≤ 2 + 8 * m := by
  rcases Nat.lt_or_ge Size.largest first with huge | range
  · have large : length ≤ growth first 0 := Nat.le_trans short (Nat.le_trans (by decide) huge.le)
    have := h.length_le head small large
    omega
  · have doubled := doubled_le_growth range m
    have := h.length_le head small (Nat.le_trans (Nat.le_min.mpr ⟨enough, short⟩) doubled)
    omega

/-- An attempt that does not overflow is the last. -/
theorem length_le_one (fits : ∀ capacity ∈ attempts.dropLast, False) : attempts.length ≤ 1 := by
  have none := congrArg List.length (List.eq_nil_iff_forall_not_mem.mpr fits)
  rw [List.length_dropLast, List.length_nil] at none
  omega

theorem strict (h : Climbs attempts)
    (small : ∀ capacity ∈ attempts.dropLast, capacity < Size.largest) :
    attempts.Pairwise (· < ·) := by
  apply List.IsChain.pairwise
  apply List.isChain_iff_getElem.mpr
  intro i inside
  have earlier : i < attempts.dropLast.length := by
    rw [List.length_dropLast]
    omega
  have room := small _ (List.getElem_mem earlier)
  rw [List.getElem_dropLast] at room
  exact Nat.lt_of_lt_of_le (lt_nextCapacity room) (List.isChain_iff_getElem.mp h i inside)

end Climbs

namespace Call.Stands

variable {call : Call} {record : Record} {hint : Nat} {caller : Caller} {course : List Phase}

theorem climbs (h : call.Stands record hint caller course) :
    Climbs (Phase.attempts course) := by
  cases h with
  | ahead => exact .nil
  | underway _ underway => exact underway.climbs
  | past _ ended => exact ended.climbs

theorem refused (h : call.Stands record hint caller course) :
    ∀ capacity ∈ (Phase.attempts course).dropLast, Overflows record capacity := by
  cases h with
  | ahead => simp
  | underway _ underway => exact fun _ mem => underway.refused _ (List.dropLast_subset _ mem)
  | past _ ended => exact ended.refused

/-- A call that has no answer got no more turns than its attempts took, and one to begin the
next. -/
theorem waiting (h : call.Stands record hint caller course)
    (waits : caller.results.length ≤ call.number) :
    (∀ capacity ∈ Phase.attempts course, Overflows record capacity) ∧
      course.length ≤ 3 * (Phase.attempts course).length + 1 := by
  cases h with
  | ahead => simp
  | underway _ underway =>
    have leads := underway.leads
    refine ⟨underway.refused, ?_⟩
    cases phase : caller.phase <;> rw [phase] at leads <;> have := leads.1 <;> omega
  | past after _ => omega

theorem answered (h : call.Stands record hint caller course)
    (after : call.number < caller.results.length) :
    0 < (Phase.attempts course).length := by
  cases h with
  | ahead => omega
  | underway => omega
  | past _ ended =>
    have := ended.turns
    omega

end Call.Stands

/-- A call for a record that can be encoded climbs at least as fast as the hint would by itself, and
needs no more attempts than that takes: whatever others do to the hint in the meantime, it helps. A
call for one that cannot be encoded makes one attempt. -/
theorem Pool.attempts_bounded {hint : CapacityHint} {work : List (List Job)} {call : Call}
    {job : Job} (range : hint.current ≤ Size.largest) (asked : call.job? work = some job)
    (turns : List Turn) :
    let pool := (Pool.start hint work).play turns
    let course := (Pool.start hint work).course call turns
    let attempts := call.attempts (Pool.start hint work) turns
    (∀ bytes, job.encoding = .ok bytes → bytes.length ≤ 2 ^ 60 →
      attempts.Pairwise (· < ·) ∧
      ∀ first, attempts.head? = some first →
        (∀ i, (inside : i < attempts.length) → growth first i ≤ attempts[i]) ∧
        (∃ k, (bytes.length ≤ growth first k ∧ ∀ j < k, growth first j < bytes.length) ∧
          attempts.length ≤ 1 + k ∧ (3 * k + 2 ≤ course.length → call.Answered pool)) ∧
        ∃ m, (bytes.length ≤ 2 ^ m * max first 1 ∧
            ∀ j < m, 2 ^ j * max first 1 < bytes.length) ∧
          attempts.length ≤ 2 + 8 * m) ∧
    (∀ mismatch, job.encoding = .error mismatch →
      attempts.length ≤ 1 ∧ (2 ≤ course.length → call.Answered pool) ∧
        (call.Answered pool → attempts.length = 1)) := by
  intro pool course attempts
  obtain ⟨jobs, assigned, own⟩ := Option.bind_eq_some_iff.mp asked
  have start : (Pool.start hint work).Follows call jobs job.record [] := .start range assigned
  have follows := start.play own turns
  obtain ⟨caller, found, -, stands⟩ := follows.stands
  have climbs : Climbs attempts := stands.climbs
  have refused : ∀ capacity ∈ attempts.dropLast, Overflows job.record capacity := stands.refused
  have unanswered (waits : ¬ call.Answered pool) :
      (∀ capacity ∈ attempts, Overflows job.record capacity) ∧
        course.length ≤ 3 * attempts.length + 1 :=
    stands.waiting (Nat.le_of_not_lt fun after => waits ⟨caller, found, after⟩)
  constructor
  · intro bytes encoded short
    have range : bytes.length ≤ Size.largest := Nat.le_trans short (by decide)
    have small : ∀ capacity ∈ attempts.dropLast, capacity < bytes.length :=
      fun capacity mem => (refused capacity mem).lt_length encoded range
    refine ⟨climbs.strict fun capacity mem => Nat.lt_of_lt_of_le (small capacity mem) range, ?_⟩
    intro first head
    refine ⟨climbs.growth_le head, ?_, ?_⟩
    · obtain ⟨k, fits, least⟩ := exists_least_growth first range
      refine ⟨k, ⟨fits, least⟩, ?_, ?_⟩
      · have := climbs.length_le head small fits
        omega
      · intro turns
        by_contra waits
        obtain ⟨all, few⟩ := unanswered waits
        have inside : k < attempts.length := by omega
        have below := (all _ (List.getElem_mem inside)).lt_length encoded range
        have above := climbs.growth_le head k inside
        omega
    · obtain ⟨m, enough, least⟩ := exists_least_double first bytes.length
      exact ⟨m, ⟨enough, least⟩, climbs.length_le_doubled head small short enough⟩
  · intro mismatch error
    have none := not_overflows error
    have few : attempts.length ≤ 1 :=
      Climbs.length_le_one fun capacity mem => none capacity (refused capacity mem)
    refine ⟨few, ?_, ?_⟩
    · intro turns
      by_contra waits
      obtain ⟨all, begun⟩ := unanswered waits
      have unbegun : attempts = [] :=
        List.eq_nil_iff_forall_not_mem.mpr fun capacity mem => none capacity (all capacity mem)
      rw [unbegun, List.length_nil] at begun
      omega
    · rintro ⟨other, here, after⟩
      obtain rfl : caller = other := Option.some.inj (found.symm.trans here)
      exact Nat.le_antisymm few (stands.answered after)

namespace Pool

/-- A record of eight bytes for each of two callers, and a misfit behind it for the second. -/
def raced : List (List Job) :=
  [[⟨⟨"a"⟩, .double, .double 0⟩], [⟨⟨"b"⟩, .double, .double 0⟩, ⟨⟨"b"⟩, .null, .boolean true⟩]]

/-- The first caller finds each size that it proposes to grow from grown by somebody else: from 3 by
the second caller and from 5 and 6 by outsiders, one of whom proposes a size that is not there. -/
def races : List Turn :=
  [.caller 0, .caller 1, .caller 0, .caller 1, .outsider 7, .caller 1, .outsider 4] ++
    .replicate 3 (.caller 0) ++ [.outsider 5, .caller 0, .outsider 6] ++
    .replicate 7 (.caller 0) ++ .replicate 4 (.caller 1)

theorem attempts_bounded_raced :
    let start := Pool.start ⟨3⟩ raced
    let climb := Call.attempts ⟨0, 0⟩ start races
    climb = [3, 5, 7, 8] ∧ climb.Pairwise (· < ·) ∧
      (∃ k, (8 ≤ growth 3 k ∧ ∀ j < k, growth 3 j < 8) ∧ climb.length ≤ 1 + k) ∧
      (∃ m, (8 ≤ 2 ^ m * 3 ∧ ∀ j < m, 2 ^ j * 3 < 8) ∧ climb.length ≤ 2 + 8 * m) ∧
      (start.course ⟨1, 1⟩ races).length = 2 ∧ Call.Answered ⟨1, 1⟩ (start.play races) ∧
      (Call.attempts ⟨1, 1⟩ start races).length = 1 := by
  intro start climb
  have tried : climb = [3, 5, 7, 8] := by decide +kernel
  have turns : (start.course ⟨1, 1⟩ races).length = 2 := by decide +kernel
  obtain ⟨strict, bounds⟩ := (@attempts_bounded ⟨3⟩ raced ⟨0, 0⟩ _ (by decide) rfl races).1
    [0, 0, 0, 0, 0, 0, 0, 0] rfl (by decide)
  obtain ⟨-, ⟨k, least, few, -⟩, m, doubled, fewer⟩ := bounds 3 (congrArg List.head? tried)
  obtain ⟨-, answered, once⟩ :=
    (@attempts_bounded ⟨3⟩ raced ⟨1, 1⟩ _ (by decide) rfl races).2 _ rfl
  have done := answered (Nat.le_of_eq turns.symm)
  exact ⟨tried, strict, ⟨k, least, few⟩, ⟨m, doubled, fewer⟩, turns, done, once done⟩

end Pool

end Clickstream

import Clickstream.Pool
import Clickstream.Proofs.Attempt

namespace Clickstream

/-- The sizes that a hint goes through. -/
def growth (start : Nat) : Nat → Nat
  | 0 => start
  | k + 1 => nextCapacity (growth start k)

namespace Job

def encoding (job : Job) : Except (Located Mismatch) (List UInt8) :=
  Wire.encode job.record.schema job.record.value

/-- What a job comes to, whoever else is encoding. -/
def answer (job : Job) : Except SerializationError Buffer :=
  match job.encoding with
  | .ok bytes => .ok ⟨job.owner, bytes⟩
  | .error mismatch => .error ⟨job.owner, mismatch⟩

end Job

/-- Every record fits that can be encoded at all. -/
def Suffices (jobs : List Job) (capacity : Nat) : Prop :=
  ∀ job ∈ jobs, ∀ bytes, job.encoding = .ok bytes → bytes.length ≤ capacity

theorem Suffices.mono {jobs : List Job} {capacity larger : Nat} (h : Suffices jobs capacity)
    (le : capacity ≤ larger) : Suffices jobs larger :=
  fun job mem bytes encoded => Nat.le_trans (h job mem bytes encoded) le

/-- What a caller has observed is no more than the hint, and too small where it says so. -/
def Phase.Seen (jobs : List Job) (hint : Nat) : Phase → Prop
  | .idle => True
  | .loaded capacity => capacity ≤ hint
  | .overflowed capacity _ => capacity ≤ hint ∧ ¬ Suffices jobs capacity

/-- Every record is shorter than the largest size there is. -/
def Short (jobs : List Job) : Prop :=
  ∀ job ∈ jobs, ∀ bytes, job.encoding = .ok bytes → bytes.length < Size.largest

theorem Short.lt_largest {jobs : List Job} {capacity : Nat} (h : Short jobs)
    (excess : ¬ Suffices jobs capacity) : capacity < Size.largest := by
  refine Nat.lt_of_not_le fun full => excess fun job mem bytes encoded => ?_
  have := h job mem bytes encoded
  omega

namespace Caller

/-- A caller that has answered its jobs up to the one it is at, all of which fit the hint. -/
structure Sound (jobs : List Job) (hint : Nat) (caller : Caller) : Prop where
  answered : ∃ done, jobs = done ++ caller.jobs ∧ caller.answers = done.map Job.answer ∧
    Suffices done hint
  seen : caller.phase.Seen jobs hint

variable {jobs : List Job} {caller : Caller}

theorem Sound.start (jobs : List Job) (hint : Nat) : Sound jobs hint (.start jobs) :=
  ⟨⟨[], rfl, rfl, by simp [Suffices]⟩, trivial⟩

theorem Sound.mono {hint larger : Nat} (h : Sound jobs hint caller) (le : hint ≤ larger) :
    Sound jobs larger caller := by
  obtain ⟨⟨done, split, answers, fit⟩, seen⟩ := h
  refine ⟨⟨done, split, answers, fit.mono le⟩, ?_⟩
  cases phase : caller.phase with
  | idle => trivial
  | loaded capacity =>
    rw [phase] at seen
    exact Nat.le_trans seen le
  | overflowed capacity _ =>
    rw [phase] at seen
    exact ⟨Nat.le_trans seen.1 le, seen.2⟩

/-- A job that is answered as it should be, and fits, is done. -/
theorem Sound.finish {hint : Nat} {job : Job} {rest : List Job}
    (h : Sound jobs hint caller) (next : caller.jobs = job :: rest)
    {result : Except SerializationError (Buffer × Report)} (events : List EncoderEvent)
    (right : result.map Prod.fst = job.answer)
    (fits : ∀ bytes, job.encoding = .ok bytes → bytes.length ≤ hint) :
    Sound jobs hint (caller.finish rest result events) := by
  obtain ⟨⟨done, split, answers, fit⟩, -⟩ := h
  refine ⟨⟨done ++ [job], by simp [split, next, Caller.finish], ?_, ?_⟩, trivial⟩
  · simp only [Caller.answers, Caller.finish, List.map_append, List.map_cons, right] at answers ⊢
    rw [answers]
    rfl
  · intro other mem bytes encoded
    rcases List.mem_append.mp mem with mem | mem
    · exact fit other mem bytes encoded
    · obtain rfl := List.mem_singleton.mp mem
      exact fits bytes encoded

/-- A step leaves a caller sound, and moves the hint only from where it does not suffice. -/
theorem Sound.step {hint : CapacityHint} (h : Sound jobs hint.current caller)
    (short : Short jobs) : Sound jobs (caller.step hint).1.current (caller.step hint).2 ∧
      ((caller.step hint).1 = hint ∨
        (caller.step hint).1 = ⟨nextCapacity hint.current⟩ ∧ ¬ Suffices jobs hint.current) := by
  have seen := h.seen
  cases next : caller.jobs with
  | nil =>
    rw [step_done next]
    exact ⟨h, .inl rfl⟩
  | cons job rest =>
    obtain ⟨done, split, -⟩ := h.answered
    have mem : job ∈ jobs := by simp [split, next]
    cases phase : caller.phase with
    | idle =>
      rw [step_load next phase]
      exact ⟨⟨h.answered, Nat.le_refl _⟩, .inl rfl⟩
    | loaded capacity =>
      rw [phase] at seen
      cases encoding : job.encoding with
      | error mismatch =>
        rw [step_mismatch next phase (Encoder.attempt_of_error capacity encoding)]
        refine ⟨h.finish next _ ?_ ?_, .inl rfl⟩
        · simp only [Job.answer, encoding]
          rfl
        · simp [encoding]
      | ok bytes =>
        have small := short job mem bytes encoding
        have outcome := Encoder.attempt_of_ok capacity encoding (Nat.le_of_lt small)
        by_cases fits : bytes.length ≤ capacity
        · rw [if_pos fits] at outcome
          rw [step_encoded next phase outcome]
          refine ⟨h.finish next _ ?_ ?_, .inl rfl⟩
          · simp only [Job.answer, encoding]
            rfl
          · intro other same
            obtain rfl : bytes = other := by simpa [encoding] using same
            exact Nat.le_trans fits seen
        · rw [if_neg fits] at outcome
          rw [step_overflow next phase outcome]
          exact ⟨⟨h.answered, seen, fun all => fits (all job mem bytes encoding)⟩, .inl rfl⟩
    | overflowed capacity overflow =>
      rw [phase] at seen
      rw [step_propose next phase]
      by_cases current : hint.current = capacity
      · subst current
        have larger := h.mono (Nat.le_of_lt (lt_nextCapacity (short.lt_largest seen.2)))
        rw [CapacityHint.propose, if_pos rfl]
        exact ⟨⟨larger.answered, trivial⟩, .inr ⟨rfl, seen.2⟩⟩
      · rw [CapacityHint.propose, if_neg current]
        exact ⟨⟨h.answered, trivial⟩, .inl rfl⟩

end Caller

namespace Pool

/-- A pool of sound callers, and a hint that did not grow further than it had to. -/
structure Sound (first : Nat) (work : List (List Job)) (pool : Pool) : Prop where
  grown : ∃ k, pool.hint.current = growth first k ∧
    ∀ j < k, ¬ Suffices work.flatten (growth first j)
  size : pool.callers.length = work.length
  callers : ∀ (place : Nat) (jobs : List Job) (caller : Caller), work[place]? = some jobs →
    pool.callers[place]? = some caller → caller.Sound jobs pool.hint.current

variable {first : Nat} {work : List (List Job)} {pool : Pool}

theorem Sound.start (hint : CapacityHint) (work : List (List Job)) :
    Sound hint.current work (.start hint work) := by
  refine ⟨⟨0, rfl, by simp⟩, by simp [Pool.start], ?_⟩
  intro place jobs caller assigned found
  obtain rfl : Caller.start jobs = caller := by simpa [Pool.start, assigned] using found
  exact .start jobs _

theorem Sound.step (h : Sound first work pool) (short : Short work.flatten) (place : Nat) :
    Sound first work (pool.step place) := by
  cases found : pool.callers[place]? with
  | none =>
    simp only [Pool.step, found]
    exact h
  | some caller =>
    have inside := (List.getElem?_eq_some_iff.mp found).1
    obtain ⟨jobs, assigned⟩ : ∃ jobs, work[place]? = some jobs :=
      ⟨_, List.getElem?_eq_getElem (h.size ▸ inside)⟩
    have own : ∀ job ∈ jobs, job ∈ work.flatten := fun job mem =>
      List.mem_flatten_of_mem (List.mem_of_getElem? assigned) mem
    have brief : Short jobs := fun job mem => short job (own job mem)
    obtain ⟨sound, moved⟩ := (h.callers place jobs caller assigned found).step brief
    have later : pool.hint.current ≤ (caller.step pool.hint).1.current := by
      rcases moved with same | ⟨grown, excess⟩
      · exact Nat.le_of_eq (congrArg CapacityHint.current same.symm)
      · exact grown ▸ Nat.le_of_lt (lt_nextCapacity (brief.lt_largest excess))
    simp only [Pool.step, found]
    refine ⟨?_, by simpa using h.size, ?_⟩
    · obtain ⟨k, reached, unavoidable⟩ := h.grown
      rcases moved with same | ⟨grown, excess⟩
      · exact ⟨k, by rw [same, reached], unavoidable⟩
      · refine ⟨k + 1, by rw [grown, growth, ← reached], ?_⟩
        intro j below
        rcases Nat.lt_or_eq_of_le (Nat.le_of_lt_succ below) with earlier | rfl
        · exact unavoidable j earlier
        · exact fun all => excess fun job mem => reached ▸ all job (own job mem)
    · intro other others neighbour assigned' found'
      rw [List.getElem?_set] at found'
      by_cases here : place = other
      · subst here
        obtain rfl : jobs = others := by simpa [assigned] using assigned'
        obtain rfl : (caller.step pool.hint).2 = neighbour := by simpa [inside] using found'
        exact sound
      · rw [if_neg here] at found'
        exact (h.callers other others neighbour assigned' found').mono later

theorem Sound.run (h : Sound first work pool) (short : Short work.flatten) (schedule : List Nat) :
    Sound first work (pool.run schedule) := by
  induction schedule generalizing pool with
  | nil => exact h
  | cons place schedule ih => exact ih (h.step short place)

/-- In a pool that is done every caller has answered all of its jobs, and the hint suffices. -/
theorem Sound.finished (h : Sound first work pool) (done : pool.Finished) :
    pool.callers.map Caller.answers = work.map (·.map Job.answer) ∧
      Suffices work.flatten pool.hint.current := by
  have every (place : Nat) (jobs : List Job) (assigned : work[place]? = some jobs) :
      ∃ caller, pool.callers[place]? = some caller ∧ caller.answers = jobs.map Job.answer ∧
        Suffices jobs pool.hint.current := by
    have inside : place < pool.callers.length := h.size ▸ (List.getElem?_eq_some_iff.mp assigned).1
    have found := List.getElem?_eq_getElem inside
    obtain ⟨before, split, answers, fit⟩ := (h.callers place jobs _ assigned found).answered
    rw [done _ (List.getElem_mem inside), List.append_nil] at split
    exact ⟨_, found, split ▸ answers, split ▸ fit⟩
  constructor
  · apply List.ext_getElem?
    intro place
    rw [List.getElem?_map, List.getElem?_map]
    cases assigned : work[place]? with
    | none =>
      have outside : pool.callers[place]? = none := by
        rw [List.getElem?_eq_none_iff] at assigned ⊢
        exact h.size ▸ assigned
      rw [outside]
      rfl
    | some jobs =>
      obtain ⟨caller, found, answers, -⟩ := every place jobs assigned
      rw [found, Option.map_some, Option.map_some, answers]
  · intro job mem
    obtain ⟨jobs, among, mem⟩ := List.mem_flatten.mp mem
    obtain ⟨place, assigned⟩ := List.mem_iff_getElem?.mp among
    obtain ⟨_, -, -, fit⟩ := every place jobs assigned
    exact fit job mem

/-- However callers take turns, each gets the answers that its own records have, and the hint ends
at the first size in its growth that suffices for all. -/
theorem run_answers {hint : CapacityHint} {work : List (List Job)} {schedule : List Nat}
    (short : ∀ jobs ∈ work, ∀ job ∈ jobs, ∀ bytes,
      job.encoding = .ok bytes → bytes.length < Size.largest)
    (finished : ((Pool.start hint work).run schedule).Finished) :
    ((Pool.start hint work).run schedule).callers.map Caller.answers =
      work.map (·.map Job.answer) ∧
    ∃ k, ((Pool.start hint work).run schedule).hint.current = growth hint.current k ∧
      Suffices work.flatten (growth hint.current k) ∧
      ∀ j < k, ¬ Suffices work.flatten (growth hint.current j) := by
  have all : Short work.flatten := by
    intro job mem
    obtain ⟨jobs, among, mem⟩ := List.mem_flatten.mp mem
    exact short jobs among job mem
  have sound := (Sound.start hint work).run all schedule
  obtain ⟨answers, enough⟩ := sound.finished finished
  obtain ⟨k, reached, unavoidable⟩ := sound.grown
  exact ⟨answers, k, reached, reached ▸ enough, unavoidable⟩

/-- A record of four bytes for one caller, one of eight and a misfit for the other. -/
def contended : List (List Job) :=
  [[⟨⟨"a"⟩, .float, .float 0⟩], [⟨⟨"b"⟩, .double, .double 0⟩, ⟨⟨"b"⟩, .null, .boolean true⟩]]

theorem short_contended : ∀ jobs ∈ contended, ∀ job ∈ jobs, ∀ bytes,
    job.encoding = .ok bytes → bytes.length < Size.largest := by
  have all : contended.all (·.all fun job => job.encoding.toOption.all
    (·.length < Size.largest)) = true := by decide +kernel
  intro jobs among job mem bytes encoded
  have small := List.all_eq_true.mp (List.all_eq_true.mp all jobs among) job mem
  simpa [encoded, Except.toOption] using small

theorem finished_contended :
    ((start ⟨3⟩ contended).run ([0, 1, 0, 1, 0, 1, 0, 0] ++ .replicate 16 1)).Finished := by
  have all : ((start ⟨3⟩ contended).run
    ([0, 1, 0, 1, 0, 1, 0, 0] ++ .replicate 16 1)).callers.all (·.jobs.isEmpty) = true := by
    decide +kernel
  intro caller mem
  exact List.isEmpty_iff.mp (List.all_eq_true.mp all caller mem)

/-- Both find the same size too small, and one of them grows it for both. -/
theorem run_answers_contended :
    ∃ pool, (start ⟨3⟩ contended).run ([0, 1, 0, 1, 0, 1, 0, 0] ++ .replicate 16 1) = pool ∧
      pool.Finished ∧ pool.callers.map Caller.answers = contended.map (·.map Job.answer) ∧
      ∃ k, pool.hint.current = growth 3 k ∧ Suffices contended.flatten (growth 3 k) ∧
        ∀ j < k, ¬ Suffices contended.flatten (growth 3 j) :=
  ⟨_, rfl, finished_contended, run_answers short_contended finished_contended⟩

end Pool

end Clickstream

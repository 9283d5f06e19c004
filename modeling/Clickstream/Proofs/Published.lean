import Clickstream.Turns
import Clickstream.Proofs.Canonical
import Clickstream.Proofs.RoundTrip
import Clickstream.Proofs.Schedule

namespace Clickstream

namespace Job

variable {capacity : Nat}

/-- An attempt that does not overflow has the answer, whatever its capacity. -/
theorem answer_of_encoded (job : Job) {bytes : List UInt8}
    (h : Encoder.attempt capacity job.record = .encoded bytes) :
    job.answer = .ok ⟨job.owner, bytes⟩ := by
  rw [Encoder.attempt_eq] at h
  split at h
  case h_1 encoded =>
    split at h <;> cases h
    simp only [answer, encoding, encoded]
  case h_2 => cases h

theorem answer_of_mismatch (job : Job) {mismatch : Located Mismatch}
    (h : Encoder.attempt capacity job.record = .mismatch mismatch) :
    job.answer = .error ⟨job.owner, mismatch⟩ := by
  rw [Encoder.attempt_eq] at h
  split at h
  case h_1 => split at h <;> cases h
  case h_2 refused =>
    cases h
    simp only [answer, encoding, refused]

theorem encoding_of_answer {job : Job} {buffer : Buffer} (h : job.answer = .ok buffer) :
    buffer.owner = job.owner ∧ job.encoding = .ok buffer.bytes := by
  unfold answer at h
  split at h
  case h_1 encoded =>
    cases h
    exact ⟨rfl, encoded⟩
  case h_2 => cases h

end Job

theorem Encoder.encodeAfter_answer (attempts : Nat) (owner : Owner) (record : Record)
    (hint : CapacityHint) :
    (encodeAfter attempts owner record hint).result.map Prod.fst = Job.answer ⟨owner, record⟩ := by
  let job : Job := ⟨owner, record⟩
  fun_induction encodeAfter with
  | case1 attempts hint _ bytes outcome => exact (job.answer_of_encoded outcome).symm
  | case2 attempts hint mismatch outcome => exact (job.answer_of_mismatch outcome).symm
  | case3 attempts hint _ overflow outcome _ _ _ ih => exact ih

namespace Caller

/-- A caller that has answered the first of these jobs, each as it should be, and has the others
left. -/
def Truthful (jobs : List Job) (caller : Caller) : Prop :=
  ∃ done, jobs = done ++ caller.jobs ∧ caller.answers = done.map Job.answer

variable {jobs : List Job} {caller : Caller}

theorem Truthful.start (jobs : List Job) : Truthful jobs (.start jobs) := ⟨[], rfl, rfl⟩

theorem Truthful.finish {job : Job} {rest : List Job} (h : Truthful jobs caller)
    (next : caller.jobs = job :: rest) {result : Except SerializationError (Buffer × Report)}
    (events : List EncoderEvent) (right : result.map Prod.fst = job.answer) :
    Truthful jobs (caller.finish rest result events) := by
  obtain ⟨done, split, answers⟩ := h
  refine ⟨done ++ [job], by simp [split, next, Caller.finish], ?_⟩
  simp only [Caller.answers, Caller.finish, List.map_append, List.map_cons, right] at answers ⊢
  rw [answers]
  rfl

theorem Truthful.step (h : Truthful jobs caller) (hint : CapacityHint) :
    Truthful jobs (caller.step hint).2 := by
  cases next : caller.jobs with
  | nil =>
    rw [step_done next]
    exact h
  | cons job rest =>
    cases phase : caller.phase with
    | idle =>
      rw [step_load next phase]
      exact h
    | loaded capacity =>
      cases outcome : Encoder.attempt capacity job.record with
      | encoded bytes =>
        rw [step_encoded next phase outcome]
        exact h.finish next _ (job.answer_of_encoded outcome).symm
      | mismatch mismatch =>
        rw [step_mismatch next phase outcome]
        exact h.finish next _ (job.answer_of_mismatch outcome).symm
      | overflow overflow =>
        rw [step_overflow next phase outcome]
        exact h
    | overflowed capacity overflow =>
      rw [step_propose next phase]
      exact h

theorem Truthful.answer {job : Job} {number : Nat}
    {result : Except SerializationError (Buffer × Report)} (h : Truthful jobs caller)
    (asked : jobs[number]? = some job) (given : caller.results[number]? = some result) :
    result.map Prod.fst = job.answer := by
  obtain ⟨done, rfl, answers⟩ := h
  have length : caller.results.length = done.length := by
    simpa [Caller.answers] using congrArg List.length answers
  have inside : number < done.length := length ▸ (List.getElem?_eq_some_iff.mp given).1
  rw [List.getElem?_append_left inside] at asked
  have same := congrArg (·[number]?) answers
  simpa [Caller.answers, given, asked] using same

end Caller

namespace Pool

/-- Callers that answer truthfully, each for the work it was given. -/
def Truthful (work : List (List Job)) (pool : Pool) : Prop :=
  ∀ (place : Nat) caller, pool.callers[place]? = some caller →
    ∃ jobs, work[place]? = some jobs ∧ caller.Truthful jobs

variable {work : List (List Job)} {pool : Pool}

theorem Truthful.start (hint : CapacityHint) (work : List (List Job)) :
    (Pool.start hint work).Truthful work := by
  intro place caller found
  obtain ⟨jobs, assigned, rfl⟩ : ∃ jobs, work[place]? = some jobs ∧ Caller.start jobs = caller := by
    simpa [Pool.start] using found
  exact ⟨jobs, assigned, .start jobs⟩

theorem Truthful.turn (h : pool.Truthful work) (turn : Turn) : (pool.turn turn).Truthful work := by
  intro place caller found
  cases turn with
  | outsider observed => exact h place caller found
  | caller mover =>
    cases moves : pool.callers[mover]? with
    | none =>
      simp only [Pool.turn, Pool.step, moves] at found
      exact h place caller found
    | some before =>
      simp only [Pool.turn, Pool.step, moves] at found
      by_cases own : mover = place
      · subst own
        rw [List.getElem?_set_self (List.getElem?_eq_some_iff.mp moves).1] at found
        obtain rfl := Option.some.inj found
        obtain ⟨jobs, assigned, truthful⟩ := h mover before moves
        exact ⟨jobs, assigned, truthful.step pool.hint⟩
      · rw [List.getElem?_set_ne own] at found
        exact h place caller found

theorem Truthful.play (h : pool.Truthful work) (turns : List Turn) :
    (pool.play turns).Truthful work := by
  induction turns generalizing pool with
  | nil => exact h
  | cons turn turns ih => exact ih (h.turn turn)

end Pool

/-- A buffer that a job is given, by an encoder that has the hint to itself or by one of many that
share it. -/
inductive Published (job : Job) (buffer : Buffer) : Prop
  | alone {hint : CapacityHint} {report : Report} :
    (Encoder.encode job.owner job.record hint).result = .ok (buffer, report) → Published job buffer
  | shared {hint : CapacityHint} {work : List (List Job)} {turns : List Turn} {call : Call}
    {caller : Caller} {report : Report} : call.job? work = some job →
    ((Pool.start hint work).play turns).callers[call.place]? = some caller →
    caller.results[call.number]? = some (.ok (buffer, report)) → Published job buffer

theorem Published.answer {job : Job} {buffer : Buffer} (h : Published job buffer) :
    job.answer = .ok buffer := by
  cases h with
  | @alone hint _ given =>
    have answer := Encoder.encodeAfter_answer 0 job.owner job.record hint
    rw [← Encoder.encode, given] at answer
    exact answer.symm
  | @shared hint work turns call caller _ asked found given =>
    obtain ⟨jobs, assigned, own⟩ := Option.bind_eq_some_iff.mp asked
    obtain ⟨others, same, truthful⟩ :=
      (Pool.Truthful.start hint work).play turns call.place caller found
    obtain rfl : jobs = others := Option.some.inj (assigned.symm.trans same)
    exact (truthful.answer own given).symm

namespace Buffer

variable {buffer : Buffer} {schema : Schema}

theorem view_read_of_decode {value : Value} (h : Wire.decode schema buffer.bytes = .ok value) :
    buffer.view.read schema = (.ok value, ⟨[], buffer.size⟩) := by
  have whole := (Wire.read_exact schema buffer.bytes value []).mpr
    ⟨buffer.bytes, by simp, Wire.decode_ok_iff.mp h⟩
  simp only [View.read, view, whole]

/-- Bytes that a reader refuses are refused with nothing behind them, and in a view. -/
theorem refused_of_overfull (h : Reader.Overfull (Wire.read schema) buffer.bytes) :
    ∃ path unread,
      Wire.decode schema buffer.bytes = .error (.corrupt ⟨path, .zeroWidthItems⟩) ∧
      buffer.view.read schema = (.error ⟨path, .zeroWidthItems⟩, ⟨unread, buffer.size⟩) := by
  obtain ⟨path, unread, refused⟩ := h []
  rw [List.append_nil] at refused
  exact ⟨path, unread, by simp only [Wire.decode, refused], by simp only [View.read, view, refused]⟩

end Buffer

/-- What an encoder hands out can be read back by all who have the schema, unless an array in it has
more items that take no bytes than a reader will have: an encoder does not count them. -/
theorem Published.decoded {job : Job} {buffer : Buffer} (published : Published job buffer)
    (short : buffer.bytes.length < 2 ^ 63) (countable : job.record.value.Countable) :
    buffer.owner = job.owner ∧
    (Wire.Capped job.record.schema job.record.value →
      Wire.decode job.record.schema buffer.bytes = .ok job.record.value ∧
      buffer.view.read job.record.schema = (.ok job.record.value, ⟨[], buffer.size⟩)) ∧
    (¬ Wire.Capped job.record.schema job.record.value → ∃ path unread,
      Wire.decode job.record.schema buffer.bytes = .error (.corrupt ⟨path, .zeroWidthItems⟩) ∧
      buffer.view.read job.record.schema =
        (.error ⟨path, .zeroWidthItems⟩, ⟨unread, buffer.size⟩)) := by
  obtain ⟨owner, encoded⟩ := Job.encoding_of_answer published.answer
  have written := Wire.encode_ok_iff.mp encoded
  refine ⟨owner, fun capped => ?_, fun excess => ?_⟩
  · have decoded : Wire.decode job.record.schema buffer.bytes = .ok job.record.value :=
      Wire.decode_ok_iff.mpr (Wire.encodes_of_emits written short countable capped)
    exact ⟨decoded, Buffer.view_read_of_decode decoded⟩
  · exact Buffer.refused_of_overfull (Wire.read_overfull written short countable excess)

namespace Published

/-- A record of so many nulls. Its schema is in order. -/
def nulls (count : Nat) : Record :=
  ⟨.record "r" [("a", .array .null)], .record [.array (.replicate count .null)]⟩

variable {count : Nat}

theorem nulls_valid (count : Nat) :
    Record.ofValid (nulls count).schema (nulls count).value = .ok (nulls count) := rfl

theorem nulls_encoded (some : count ≠ 0) : Wire.encode (nulls count).schema (nulls count).value =
    .ok (Varint.encode (.ofNat count) ++ [] ++ Varint.encode 0) := by
  have array := Wire.encode_ok_iff.mp (Wire.encode_nulls some)
  refine Wire.encode_ok_iff.mpr (Wire.emits_write_iff.mpr (.record rfl ?_))
  exact Wire.emits_writeFields_cons_iff.mpr
    ⟨_, [], (List.append_nil _).symm, array, Writer.emits_pure_iff.mpr rfl⟩

theorem nulls_countable (few : count < 2 ^ 63) : (nulls count).value.Countable :=
  ⟨⟨by rwa [List.length_replicate], Wire.countable_nulls count⟩, trivial⟩

theorem nulls_capped_iff :
    Wire.Capped (nulls count).schema (nulls count).value ↔ count ≤ zeroWidthLimit := by
  constructor
  · intro h
    obtain ⟨⟨few, -⟩, -⟩ := h
    simpa using few rfl
  · intro few
    exact ⟨⟨fun _ => by rwa [List.length_replicate], Wire.capped_nulls count⟩, trivial⟩

theorem nulls_published (count : Nat) (owner : Owner) (some : count ≠ 0)
    (small : (Varint.encode (.ofNat count) ++ [] ++ Varint.encode 0).length ≤ 100) :
    ∃ report, (Encoder.encode owner (nulls count) ⟨100⟩).result =
      .ok (⟨owner, Varint.encode (.ofNat count) ++ [] ++ Varint.encode 0⟩, report) := by
  have outcome := Encoder.attempt_of_ok 100 (nulls_encoded some) (Nat.le_trans small (by decide))
  rw [if_pos small] at outcome
  exact ⟨_, congrArg Encoding.result (Encoder.encodeAfter_encoded outcome)⟩

/-- As many nulls as a reader will have are read back, and one more is not. -/
theorem decoded_nulls :
    (∃ buffer : Buffer, Published ⟨⟨"a"⟩, nulls 65536⟩ buffer ∧
      Wire.decode (nulls 65536).schema buffer.bytes = .ok (nulls 65536).value ∧
      buffer.view.read (nulls 65536).schema = (.ok (nulls 65536).value, ⟨[], buffer.size⟩)) ∧
    ∃ buffer : Buffer, Published ⟨⟨"a"⟩, nulls 65537⟩ buffer ∧ ∃ path,
      Wire.decode (nulls 65537).schema buffer.bytes =
        .error (.corrupt ⟨path, .zeroWidthItems⟩) := by
  constructor
  · obtain ⟨report, given⟩ := nulls_published 65536 ⟨"a"⟩ (by decide) (by decide)
    have published : Published ⟨⟨"a"⟩, nulls 65536⟩ _ := .alone given
    exact ⟨_, published, (published.decoded (by decide) (nulls_countable (by decide))).2.1
      (nulls_capped_iff.mpr (by decide))⟩
  · obtain ⟨report, given⟩ := nulls_published 65537 ⟨"a"⟩ (by decide) (by decide)
    have published : Published ⟨⟨"a"⟩, nulls 65537⟩ _ := .alone given
    obtain ⟨path, -, refused, -⟩ := (published.decoded (by decide)
      (nulls_countable (by decide))).2.2 (mt nulls_capped_iff.mp (by decide))
    exact ⟨_, published, path, refused⟩

/-- One null more than a reader will have: the encoder hands out bytes that no reader accepts. -/
theorem nulls_refused :
    Record.ofValid (nulls 65537).schema (nulls 65537).value = .ok (nulls 65537) ∧
    ∃ buffer report, (Encoder.encode ⟨"a"⟩ (nulls 65537) ⟨100⟩).result = .ok (buffer, report) ∧
      buffer.bytes = [0x82, 0x80, 0x08, 0x00] ∧
      (∀ value, Wire.decode (nulls 65537).schema buffer.bytes ≠ .ok value) ∧
      ∀ value rest, buffer.view.read (nulls 65537).schema ≠ (.ok value, rest) := by
  obtain ⟨report, given⟩ := nulls_published 65537 ⟨"a"⟩ (by decide) (by decide)
  have bytes : Varint.encode (.ofNat 65537) ++ [] ++ Varint.encode 0 = [0x82, 0x80, 0x08, 0x00] :=
    by decide
  rw [bytes] at given
  have refused : Wire.read (nulls 65537).schema [0x82, 0x80, 0x08, 0x00] =
    .error ⟨[.field "a"], .zeroWidthItems⟩ [0x00] := rfl
  refine ⟨nulls_valid _, _, report, given, rfl, fun value => ?_, fun value rest => ?_⟩
  · simp [Wire.decode, refused]
  · simp [View.read, Buffer.view, refused]

end Published

end Clickstream

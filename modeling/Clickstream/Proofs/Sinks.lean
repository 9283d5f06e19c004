import Clickstream.Proofs.Attempt

namespace Clickstream

/-- The sink after a step, whether the step came to its end or not. -/
def Writer.after {σ : Type} (step : Writer σ Unit) (sink : σ) : σ :=
  match step sink with
  | .ok _ sink => sink
  | .error _ sink => sink

/-- What can be done to a sink. -/
inductive Operation where
  | put (bytes : List UInt8)
  | write (schema : Schema) (value : Value)

namespace Operation

def perform {σ : Type} [Sink σ] : Operation → Writer σ Unit
  | put bytes => Writer.put bytes
  | write schema value => Wire.write schema value

/-- The bytes that an operation puts where nothing is refused. -/
def bytes (operation : Operation) : List UInt8 :=
  (operation.perform.after Unbounded.empty).written.toList

end Operation

/-- The sink after these operations, one after the other, whatever became of each. -/
def Bounded.run (sink : Bounded) (operations : List Operation) : Bounded :=
  operations.foldl (fun sink operation => operation.perform.after sink) sink

theorem Transcript.after_finish {σ : Type} {step : Writer σ Unit} {sink last : σ}
    {transcript : Transcript} (h : step sink = transcript.finish last) :
    step.after sink = last := by
  rw [Writer.after, h, finish]
  cases transcript.fault <;> rfl

theorem Operation.exists_transcript (operation : Operation) : ∃ transcript : Transcript,
    (∀ (σ : Type) [Sink σ], operation.perform = transcript.play (σ := σ)) ∧
      operation.bytes = transcript.bytes := by
  obtain ⟨transcript, plays⟩ : Writer.Uniform fun _ _ => operation.perform := by
    cases operation with
    | put bytes => exact .put bytes
    | write schema value => exact Wire.write_uniform.1 schema value
  refine ⟨transcript, plays, ?_⟩
  have same : operation.perform = transcript.play := plays Unbounded
  rw [bytes, same, Transcript.after_finish (transcript.play_unbounded _)]
  simp [Unbounded.empty]

/-- A bounded sink after an operation: some of the bytes that were put, from the first on, stand
behind what was there. Sizes are counted up to the largest one, so a limit that is no smaller needs
a bound for the bytes. -/
theorem Operation.after_bounded (operation : Operation) (sink : Bounded)
    (within : sink.written.size ≤ sink.limit)
    (range : sink.limit < Size.largest ∨
      sink.written.size + operation.bytes.length ≤ Size.largest) :
    ∃ front, front <+: operation.bytes ∧ sink.written.size + front.length ≤ sink.limit ∧
      operation.perform.after sink = ⟨sink.limit, sink.written ++ front⟩ := by
  obtain ⟨transcript, plays, same⟩ := operation.exists_transcript
  rw [same] at range ⊢
  rw [plays Bounded]
  by_cases room : Size.add sink.written.size transcript.bytes.length ≤ sink.limit
  · refine ⟨transcript.bytes, List.prefix_refl _, ?_,
      Transcript.after_finish (transcript.play_bounded sink room)⟩
    simp only [Size.add] at room
    omega
  · obtain ⟨front, required, begins, fits, -, -, stopped⟩ :=
      transcript.play_bounded_full sink within (Nat.lt_of_not_le room)
    exact ⟨front, begins, fits, by rw [Writer.after, stopped]⟩

/-- Operations on a bounded sink leave its limit and what it holds, and stay within that limit. -/
theorem Bounded.run_within (operations : List Operation) (sink : Bounded)
    (within : sink.written.size ≤ sink.limit)
    (range : sink.limit < Size.largest ∨
      sink.written.size + (operations.flatMap Operation.bytes).length ≤ Size.largest) :
    (sink.run operations).limit = sink.limit ∧
      (sink.run operations).written.size ≤ sink.limit ∧
      sink.written.toList <+: (sink.run operations).written.toList := by
  induction operations generalizing sink with
  | nil => exact ⟨rfl, within, List.prefix_refl _⟩
  | cons operation operations ih =>
    rw [List.flatMap_cons, List.length_append] at range
    obtain ⟨front, begins, fits, after⟩ := operation.after_bounded sink within (by omega)
    have kept : sink.written.toList <+: (sink.written ++ front).toList := by simp
    have size := Bounded.size_append sink.written front
    have shorter := begins.length_le
    obtain ⟨limit, below, more⟩ := ih ⟨sink.limit, sink.written ++ front⟩
      (by simpa only [size] using fits) (by simp only [size]; omega)
    rw [run, List.foldl_cons, after]
    exact ⟨limit, below, kept.trans more⟩

/-- What is written, and whether it comes to its end, is the same for every sink. One without
bounds takes it all, one that counts comes to its length, and one with a limit takes it all too if
there is room, or as much from the front as it has taken when it refuses a put. Whatever is done to
a sink with a limit, it stays within it and keeps what it holds, and a put that it refuses leaves it
as it is. -/
theorem write_every_sink :
    (∀ schema value, ∃ transcript : Transcript,
      let bytes := transcript.bytes
      Wire.write schema value Unbounded.empty = transcript.finish ⟨bytes.toArray⟩ ∧
      (∀ sink : Unbounded,
        Wire.write schema value sink = transcript.finish ⟨sink.written ++ bytes⟩) ∧
      (∀ sink : Counter, sink.length + bytes.length ≤ Size.largest →
        Wire.write schema value sink = transcript.finish ⟨sink.length + bytes.length⟩) ∧
      ∀ sink : Bounded, sink.written.size ≤ sink.limit →
        sink.written.size + bytes.length ≤ Size.largest →
        (sink.written.size + bytes.length ≤ sink.limit →
          Wire.write schema value sink = transcript.finish ⟨sink.limit, sink.written ++ bytes⟩) ∧
        (sink.limit < sink.written.size + bytes.length → ∃ front required,
          front <+: bytes ∧ sink.written.size + front.length ≤ sink.limit ∧
          sink.limit < required ∧ required ≤ sink.written.size + bytes.length ∧
          Wire.write schema value sink =
            .error (.overflow ⟨sink.limit, required⟩) ⟨sink.limit, sink.written ++ front⟩)) ∧
    (∀ (sink : Bounded) (operations : List Operation), sink.written.size ≤ sink.limit →
      (sink.limit < Size.largest ∨
        sink.written.size + (operations.flatMap Operation.bytes).length ≤ Size.largest) →
      (sink.run operations).limit = sink.limit ∧
        (sink.run operations).written.size ≤ sink.limit ∧
        sink.written.toList <+: (sink.run operations).written.toList) ∧
    (∀ (sink after : Bounded) bytes refused,
      Writer.put bytes sink = .error refused after → after = sink) := by
  refine ⟨fun schema value => ?_, fun sink operations => sink.run_within operations, ?_⟩
  · obtain ⟨transcript, plays⟩ := Wire.write_uniform.1 schema value
    have all (σ : Type) [Sink σ] : Wire.write schema value = transcript.play (σ := σ) := plays σ
    refine ⟨transcript, ?_, fun sink => ?_, fun sink total => ?_, fun sink within total => ⟨?_, ?_⟩⟩
    · rw [all, transcript.play_unbounded]
      simp [Unbounded.empty]
    · rw [all, transcript.play_unbounded]
    · rw [all, transcript.play_counter sink (by omega), Size.add_eq total]
    · intro room
      rw [all, transcript.play_bounded sink (by rwa [Size.add_eq total])]
    · intro excess
      have stopped := transcript.play_bounded_full sink within (by rwa [Size.add_eq total])
      rwa [Size.add_eq total, ← all Bounded] at stopped
  · intro sink after bytes refused stopped
    simp only [Writer.put] at stopped
    split at stopped
    · cases stopped
    · cases stopped
      rfl

end Clickstream

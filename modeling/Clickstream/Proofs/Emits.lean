import Clickstream.Proofs.Varint
import Clickstream.Wire.Transcript

namespace Clickstream

/-- The transcript at its end on a sink that took all of its puts. -/
def Transcript.finish {σ : Type} (transcript : Transcript) (sink : σ) :
    EStateM.Result WriteError σ Unit :=
  match transcript.fault with
  | none => .ok () sink
  | some mismatch => .error (.mismatch mismatch) sink

theorem Unbounded.append_append (written : Array UInt8) (front back : List UInt8) :
    written ++ front ++ back = written ++ (front ++ back) := Array.ext' (by simp)

theorem Unbounded.append_inj {written : Array UInt8} {bytes others : List UInt8} :
    written ++ bytes = written ++ others ↔ bytes = others := by
  constructor
  · intro h
    simpa using congrArg Array.toList h
  · intro k
    subst k
    rfl

theorem Transcript.play_unbounded (transcript : Transcript) (sink : Unbounded) :
    transcript.play sink = transcript.finish ⟨sink.written ++ transcript.bytes⟩ := by
  obtain ⟨puts, fault⟩ := transcript
  induction puts generalizing sink with
  | nil => cases fault <;> simp [play, playPuts, finish, bytes] <;> rfl
  | cons bytes puts ih =>
    have put : Sink.put sink bytes = .ok ⟨sink.written ++ bytes⟩ := rfl
    rw [play_cons_ok put, ih]
    simp only [finish, Transcript.bytes, List.flatten_cons, Unbounded.append_append]

namespace Wire

/-- Writing follows one transcript on every sink, and encoding reports how it ends. -/
theorem exists_transcript (schema : Schema) (value : Value) : ∃ transcript : Transcript,
    (∀ (σ : Type) [Sink σ], write schema value = transcript.play (σ := σ)) ∧
    encode schema value =
      match transcript.fault with
      | none => .ok transcript.bytes
      | some mismatch => .error mismatch := by
  obtain ⟨transcript, plays⟩ := write_uniform.1 schema value
  have same : write schema value = transcript.play := plays Unbounded
  refine ⟨transcript, plays, ?_⟩
  rw [encode, same, Transcript.play_unbounded, Transcript.finish]
  cases transcript.fault <;> simp [Unbounded.empty]

end Wire

namespace Writer

/-- A step that puts these bytes behind whatever is there, and comes to its end. -/
def Emits (step : Writer Unbounded Unit) (bytes : List UInt8) : Prop :=
  ∀ sink, step sink = .ok () ⟨sink.written ++ bytes⟩

/-- A step that does the same whatever is there. -/
def Settled (step : Writer Unbounded Unit) : Prop :=
  ∃ transcript : Transcript, step = transcript.play

theorem Uniform.settled {step : (σ : Type) → [Sink σ] → Writer σ Unit} (h : Uniform step) :
    Settled (step Unbounded) := by
  obtain ⟨transcript, plays⟩ := h
  exact ⟨transcript, plays Unbounded⟩

theorem Settled.bind {first second : Writer Unbounded Unit} (h : Settled first)
    (k : Settled second) : Settled (first >>= fun _ => second) := by
  obtain ⟨front, rfl⟩ := h
  obtain ⟨back, rfl⟩ := k
  exact ⟨front.followedBy back, (Transcript.play_followedBy _ _).symm⟩

theorem Settled.within {step : Writer Unbounded Unit} (segment : Segment) (h : Settled step) :
    Settled (within segment step) := by
  obtain ⟨transcript, rfl⟩ := h
  exact ⟨transcript.within segment, (Transcript.play_within _ _).symm⟩

theorem emits_play_iff {transcript : Transcript} {bytes : List UInt8} :
    Emits transcript.play bytes ↔ transcript.fault = none ∧ transcript.bytes = bytes := by
  simp only [Emits, Transcript.play_unbounded, Transcript.finish]
  cases transcript.fault with
  | none =>
    simp only [EStateM.Result.ok.injEq, true_and, Unbounded.mk.injEq]
    constructor
    · intro h
      exact Unbounded.append_inj.mp (h Unbounded.empty)
    · intro k sink
      subst k
      rfl
  | some mismatch =>
    simp only [reduceCtorEq, false_and, iff_false]
    exact fun h => h Unbounded.empty

theorem emits_put_iff {data bytes : List UInt8} : Emits (put data) bytes ↔ bytes = data := by
  constructor
  · intro h
    have := h Unbounded.empty
    simp only [put, Sink.put, EStateM.Result.ok.injEq, true_and, Unbounded.mk.injEq] at this
    exact (Unbounded.append_inj.mp this).symm
  · intro k sink
    subst k
    rfl

theorem emits_pure_iff {bytes : List UInt8} : Emits (pure ()) bytes ↔ bytes = [] := by
  constructor
  · intro h
    have := h Unbounded.empty
    simpa [Pure.pure, EStateM.pure, Unbounded.empty] using this
  · intro k sink
    subst k
    simp [Pure.pure, EStateM.pure]

theorem not_emits_refuse {mismatch : Mismatch} {bytes : List UInt8} :
    ¬ Emits (refuse mismatch) bytes := by
  intro h
  have stopped : EStateM.Result.error (WriteError.mismatch (.here mismatch)) Unbounded.empty =
      .ok () _ :=
    h Unbounded.empty
  cases stopped

theorem emits_within_iff {segment : Segment} {step : Writer Unbounded Unit} {bytes : List UInt8} :
    Emits (within segment step) bytes ↔ Emits step bytes := by
  have same (sink : Unbounded) : within segment step sink = .ok () ⟨sink.written ++ bytes⟩ ↔
      step sink = .ok () ⟨sink.written ++ bytes⟩ := by
    simp only [within]
    cases step sink <;> simp
  simp only [Emits, same]

theorem Emits.bind {first second : Writer Unbounded Unit} {front back : List UInt8}
    (h : Emits first front) (k : Emits second back) :
    Emits (first >>= fun _ => second) (front ++ back) := by
  intro sink
  simp only [Bind.bind, EStateM.bind, h sink]
  rw [k, Unbounded.append_append]

theorem emits_bind_iff {first second : Writer Unbounded Unit} {bytes : List UInt8}
    (h : Settled first) (k : Settled second) :
    Emits (first >>= fun _ => second) bytes ↔
      ∃ front back, bytes = front ++ back ∧ Emits first front ∧ Emits second back := by
  constructor
  · intro whole
    obtain ⟨front, rfl⟩ := h
    obtain ⟨back, rfl⟩ := k
    rw [← Transcript.play_followedBy, emits_play_iff] at whole
    obtain ⟨fault, rfl⟩ := whole
    cases found : front.fault with
    | none =>
      simp only [Transcript.followedBy, found] at fault ⊢
      exact ⟨front.bytes, back.bytes, by simp [Transcript.bytes], emits_play_iff.mpr ⟨found, rfl⟩,
        emits_play_iff.mpr ⟨fault, rfl⟩⟩
    | some mismatch => simp [Transcript.followedBy, found] at fault
  · intro given
    obtain ⟨front, back, rfl, one, two⟩ := given
    exact one.bind two

theorem Emits.unique {step : Writer Unbounded Unit} {bytes others : List UInt8}
    (h : Emits step bytes) (k : Emits step others) : bytes = others := by
  have := (h Unbounded.empty).symm.trans (k Unbounded.empty)
  simp only [EStateM.Result.ok.injEq, true_and, Unbounded.mk.injEq] at this
  exact Unbounded.append_inj.mp this

end Writer

end Clickstream

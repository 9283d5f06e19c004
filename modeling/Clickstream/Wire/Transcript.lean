import Clickstream.Wire.Write

namespace Clickstream

/-- What a step of writing does, whatever the sink: the puts that it makes and, if it does not
come to its end, the mismatch that it found. -/
structure Transcript where
  puts : List (List UInt8)
  fault : Option (Located Mismatch)

namespace Transcript

def bytes (transcript : Transcript) : List UInt8 := transcript.puts.flatten

/-- The second transcript follows only if the first comes to its end. -/
def followedBy (first second : Transcript) : Transcript :=
  match first.fault with
  | none => ⟨first.puts ++ second.puts, second.fault⟩
  | some _ => first

def within (segment : Segment) (transcript : Transcript) : Transcript :=
  ⟨transcript.puts, transcript.fault.map (·.within segment)⟩

variable {σ : Type} [Sink σ]

/-- Makes puts in order, as far as the sink takes them. -/
def playPuts (fault : Option (Located Mismatch)) : List (List UInt8) → Writer σ Unit
  | [] =>
    match fault with
    | none => pure ()
    | some mismatch => throw (.mismatch mismatch)
  | bytes :: puts => do
    Writer.put bytes
    playPuts fault puts

def play (transcript : Transcript) : Writer σ Unit := playPuts transcript.fault transcript.puts

theorem play_cons_ok {bytes : List UInt8} {puts : List (List UInt8)}
    {fault : Option (Located Mismatch)} {sink next : σ} (h : Sink.put sink bytes = .ok next) :
    (⟨bytes :: puts, fault⟩ : Transcript).play sink = (⟨puts, fault⟩ : Transcript).play next := by
  simp only [play, playPuts, Bind.bind, EStateM.bind, Writer.put, h]

theorem play_cons_error {bytes : List UInt8} {puts : List (List UInt8)}
    {fault : Option (Located Mismatch)} {sink : σ} {refused : Overflow}
    (h : Sink.put sink bytes = .error refused) :
    (⟨bytes :: puts, fault⟩ : Transcript).play sink = .error (.overflow refused) sink := by
  simp only [play, playPuts, Bind.bind, EStateM.bind, Writer.put, h]

theorem play_followedBy (first second : Transcript) :
    (first.followedBy second).play (σ := σ) = first.play >>= fun _ => second.play := by
  obtain ⟨puts, fault⟩ := first
  cases fault with
  | none =>
    simp only [followedBy, play]
    induction puts with
    | nil => rfl
    | cons bytes puts ih => simp only [List.cons_append, playPuts, ih, bind_assoc]
  | some mismatch =>
    simp only [followedBy, play]
    induction puts with
    | nil => rfl
    | cons bytes puts ih =>
      simp only [playPuts, bind_assoc]
      rw [← ih]

theorem play_within (segment : Segment) (transcript : Transcript) :
    (transcript.within segment).play (σ := σ) = Writer.within segment transcript.play := by
  obtain ⟨puts, fault⟩ := transcript
  funext sink
  simp only [within, play]
  induction puts generalizing sink with
  | nil => cases fault <;> rfl
  | cons bytes puts ih =>
    simp only [playPuts, Writer.within, Bind.bind, EStateM.bind, Writer.put] at ih ⊢
    cases Sink.put sink bytes with
    | error refused => rfl
    | ok sink => exact ih sink

end Transcript

/-- A step that does the same to every sink. -/
def Writer.Uniform (step : (σ : Type) → [Sink σ] → Writer σ Unit) : Prop :=
  ∃ transcript : Transcript, ∀ (σ : Type) [Sink σ], step σ = transcript.play

namespace Writer.Uniform

theorem pure : Uniform fun _ _ => pure () := ⟨⟨[], none⟩, fun _ _ => rfl⟩

theorem put (bytes : List UInt8) : Uniform fun _ _ => put bytes :=
  ⟨⟨[bytes], none⟩, fun _ _ => (bind_pure _).symm⟩

theorem refuse (mismatch : Mismatch) : Uniform fun _ _ => refuse mismatch :=
  ⟨⟨[], some (.here mismatch)⟩, fun _ _ => rfl⟩

variable {first second : (σ : Type) → [Sink σ] → Writer σ Unit}

theorem bind (h : Uniform first) (k : Uniform second) :
    Uniform fun σ _ => first σ >>= fun _ => second σ := by
  obtain ⟨front, hf⟩ := h
  obtain ⟨back, hb⟩ := k
  refine ⟨front.followedBy back, fun σ _ => ?_⟩
  simp only [hf σ, hb σ, Transcript.play_followedBy]

theorem within (segment : Segment) (h : Uniform first) :
    Uniform fun σ _ => within segment (first σ) := by
  obtain ⟨transcript, hs⟩ := h
  refine ⟨transcript.within segment, fun σ _ => ?_⟩
  simp only [hs σ, Transcript.play_within]

end Writer.Uniform

namespace Wire

open Datum Writer

theorem writeLong_uniform (n : Int64) : Uniform fun _ _ => writeLong n := .put _

theorem writeBytes_uniform (data : List UInt8) : Uniform fun _ _ => writeBytes data :=
  .bind (writeLong_uniform _) (.put _)

theorem writeCollection_uniform (length : Nat) {items : (σ : Type) → [Sink σ] → Writer σ Unit}
    (h : Uniform items) : Uniform fun σ _ => writeCollection length (items σ) := by
  unfold writeCollection
  split
  · exact writeLong_uniform _
  · exact .bind (writeLong_uniform _) (.bind h (writeLong_uniform _))

/-- What is written does not depend on the sink. -/
theorem write_uniform :
    (∀ schema value, Uniform fun _ _ => write schema value) ∧
    (∀ fields values, Uniform fun _ _ => writeFields fields values) ∧
    (∀ schema entries, Uniform fun _ _ => writeEntries schema entries) ∧
    (∀ item position items, Uniform fun _ _ => writeItems item position items) := by
  refine write.mutual_induct (fun schema value => Uniform fun _ _ => write schema value)
    (fun fields values => Uniform fun _ _ => writeFields fields values)
    (fun schema entries => Uniform fun _ _ => writeEntries schema entries)
    (fun item position items => Uniform fun _ _ => writeItems item position items)
    ?null ?boolean ?int ?long ?float ?double ?bytes ?string ?array ?map ?union ?noBranch
    ?noSymbol ?enum ?wrongSize ?fixed ?wrongArity ?record ?wrongKind
    ?fields ?noFields ?noItems ?items ?noEntries ?entries
  case null => exact .pure
  case boolean => exact fun _ => .put _
  case int => exact fun _ => writeLong_uniform _
  case long => exact fun _ => writeLong_uniform _
  case float => exact fun _ => .put _
  case double => exact fun _ => .put _
  case bytes => exact fun _ => writeBytes_uniform _
  case string => exact fun _ => writeBytes_uniform _
  case array => exact fun _ _ h => writeCollection_uniform _ h
  case map => exact fun _ _ h => writeCollection_uniform _ h
  case union =>
    intro branches branch value schema found h
    simp only [Datum.write, found]
    exact .bind (writeLong_uniform _) (.within _ h)
  case noBranch => intro _ _ _ absent; simp only [Datum.write, absent]; exact .refuse _
  case noSymbol => intro _ _ _ absent; simp only [Datum.write, if_pos absent]; exact .refuse _
  case enum => intro _ _ _ present; simp only [Datum.write, if_neg present]; exact writeLong_uniform _
  case wrongSize => intro _ _ _ wrong; simp only [Datum.write, if_pos wrong]; exact .refuse _
  case fixed => intro _ _ _ right; simp only [Datum.write, if_neg right]; exact .put _
  case wrongArity => intro _ _ _ wrong; simp only [Datum.write, if_pos wrong]; exact .refuse _
  case record => intro _ _ _ right h; simp only [Datum.write, if_neg right]; exact h
  case wrongKind =>
    intro schema value
    intros
    refine ⟨⟨[], some (.here (.kind schema.kind value.kind))⟩, fun σ _ => ?_⟩
    dsimp only
    rw [write, Datum.write]
    · rfl
    all_goals assumption
  case fields => exact fun _ _ _ _ _ h rest => .bind (.within _ h) rest
  case noFields =>
    intros
    refine ⟨⟨[], none⟩, fun σ _ => ?_⟩
    dsimp only
    rw [writeFields]
    · rfl
    all_goals assumption
  case noItems => exact fun _ _ => .pure
  case items => exact fun _ _ _ _ h rest => .bind (.within _ h) (rest _)
  case noEntries => exact fun _ => .pure
  case entries =>
    exact fun _ _ _ _ h rest => .bind (writeBytes_uniform _) (.bind (.within _ h) rest)

end Wire

end Clickstream

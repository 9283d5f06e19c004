import Clickstream.Wire.Transcript

namespace Clickstream

theorem Bounded.put_ok {sink : Bounded} {bytes : List UInt8}
    (room : Size.add sink.written.size bytes.length ≤ sink.limit) :
    Sink.put sink bytes = .ok ⟨sink.limit, sink.written ++ bytes⟩ := if_neg (Nat.not_lt.mpr room)

theorem Bounded.put_full {sink : Bounded} {bytes : List UInt8}
    (full : sink.limit < Size.add sink.written.size bytes.length) : Sink.put sink bytes =
      .error ⟨sink.limit, Size.add sink.written.size bytes.length⟩ := if_pos full

/-- A step that, given room for every size there is, never overflows and keeps that room. -/
def Writer.Fits (step : Writer Bounded Unit) : Prop :=
  ∀ sink : Bounded, Size.largest ≤ sink.limit →
    match step sink with
    | .ok _ sink => Size.largest ≤ sink.limit
    | .error (.mismatch _) _ => True
    | .error (.overflow _) _ => False

theorem Transcript.play_fits (transcript : Transcript) : Writer.Fits transcript.play := by
  obtain ⟨puts, fault⟩ := transcript
  intro sink room
  induction puts generalizing sink with
  | nil =>
    cases fault with
    | none => exact room
    | some mismatch => exact trivial
  | cons bytes puts ih =>
    have least := Size.add_le_largest sink.written.size bytes.length
    rw [play_cons_ok (Bounded.put_ok (Nat.le_trans least room))]
    exact ih _ room

/-- Room for every size there is, is room for every value. -/
theorem Wire.write_fits (schema : Schema) (value : Value) : Writer.Fits (write schema value) := by
  obtain ⟨transcript, plays⟩ := write_uniform.1 schema value
  have same : write schema value = transcript.play := plays Bounded
  exact same ▸ transcript.play_fits

end Clickstream

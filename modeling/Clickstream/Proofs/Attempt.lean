import Clickstream.Encoder
import Clickstream.Proofs.Emits

namespace Clickstream

theorem Bounded.size_append (written : Array UInt8) (bytes : List UInt8) :
    (written ++ bytes).size = written.size + bytes.length := by
  simp [← Array.length_toList]

namespace Transcript

/-- Lengths that are added one after the other stop where their sum stops. -/
theorem play_counter (transcript : Transcript) (sink : Counter) (h : sink.length ≤ Size.largest) :
    transcript.play sink =
      transcript.finish ⟨Size.add sink.length transcript.bytes.length⟩ := by
  obtain ⟨puts, fault⟩ := transcript
  induction puts generalizing sink with
  | nil =>
    have same : Size.add sink.length 0 = sink.length := Size.add_eq h
    simp only [bytes, List.flatten_nil, List.length_nil, same]
    cases fault <;> rfl
  | cons first puts ih =>
    have put : Sink.put sink first = .ok ⟨Size.add sink.length first.length⟩ := rfl
    have sum : Size.add (Size.add sink.length first.length) puts.flatten.length =
        Size.add sink.length (first.length + puts.flatten.length) := by
      simp only [Size.add]
      omega
    have rest := ih ⟨Size.add sink.length first.length⟩ (Size.add_le_largest _ _)
    rw [play_cons_ok put, rest]
    simp only [finish, bytes, List.flatten_cons, List.length_append, sum]

/-- A bounded sink takes all puts if it has room for their sum. -/
theorem play_bounded (transcript : Transcript) (sink : Bounded)
    (room : Size.add sink.written.size transcript.bytes.length ≤ sink.limit) :
    transcript.play sink = transcript.finish ⟨sink.limit, sink.written ++ transcript.bytes⟩ := by
  obtain ⟨puts, fault⟩ := transcript
  induction puts generalizing sink with
  | nil =>
    simp only [bytes, List.flatten_nil, Array.appendList_nil]
    cases fault <;> rfl
  | cons first puts ih =>
    simp only [bytes, List.flatten_cons, List.length_append, Size.add] at room
    have fits : Size.add sink.written.size first.length ≤ sink.limit := by
      simp only [Size.add]
      omega
    rw [play_cons_ok (Bounded.put_ok fits), ih]
    · simp only [finish, bytes, List.flatten_cons, Unbounded.append_append]
    · simp only [bytes, Bounded.size_append, Size.add]
      omega

/-- And otherwise it keeps the first of them, refuses one that it has no room for, and nothing that
comes after is tried. -/
theorem play_bounded_full (transcript : Transcript) (sink : Bounded)
    (within : sink.written.size ≤ sink.limit)
    (excess : sink.limit < Size.add sink.written.size transcript.bytes.length) :
    ∃ front required, front <+: transcript.bytes ∧
      sink.written.size + front.length ≤ sink.limit ∧ sink.limit < required ∧
      required ≤ Size.add sink.written.size transcript.bytes.length ∧
      transcript.play sink =
        .error (.overflow ⟨sink.limit, required⟩) ⟨sink.limit, sink.written ++ front⟩ := by
  obtain ⟨puts, fault⟩ := transcript
  induction puts generalizing sink with
  | nil =>
    simp only [bytes, List.flatten_nil, List.length_nil, Size.add] at excess
    omega
  | cons first puts ih =>
    simp only [bytes, List.flatten_cons, List.length_append, Size.add] at excess
    -- The induction is on the puts left, with the sink that took those before them.
    rcases Nat.lt_or_ge sink.limit (Size.add sink.written.size first.length) with full | fits
    · refine ⟨[], _, List.nil_prefix, within, full, ?_, ?_⟩
      · simp only [bytes, List.flatten_cons, List.length_append, Size.add]
        omega
      · rw [play_cons_error (Bounded.put_full full), Array.appendList_nil]
    · simp only [Size.add] at fits
      have taken := Bounded.size_append sink.written first
      obtain ⟨front, required, begins, room, beyond, most, stopped⟩ :=
        ih ⟨sink.limit, sink.written ++ first⟩
          (by simp only [taken]; omega) (by simp only [bytes, taken, Size.add]; omega)
      simp only [taken, bytes, Size.add] at room most
      refine ⟨first ++ front, required, (List.prefix_append_right_inj first).mpr begins, ?_,
        beyond, ?_, ?_⟩
      · rw [List.length_append]
        omega
      · simp only [bytes, List.flatten_cons, List.length_append, Size.add]
        omega
      · rw [play_cons_ok (Bounded.put_ok (by simpa only [Size.add] using fits)), stopped,
          Unbounded.append_append]

end Transcript

namespace Encoder

/-- What an attempt comes to is settled by the encoding without bounds: a mismatch is found at
every capacity, and an overflow tells the whole length. -/
theorem attempt_eq (capacity : Nat) (record : Record) : attempt capacity record =
    match Wire.encode record.schema record.value with
    | .ok bytes =>
      if Size.add 0 bytes.length ≤ capacity then .encoded bytes
      else .overflow ⟨capacity, Size.add 0 bytes.length⟩
    | .error mismatch => .mismatch mismatch := by
  obtain ⟨transcript, plays, outcome⟩ := Wire.exists_transcript record.schema record.value
  have counted := transcript.play_counter Counter.zero (Nat.zero_le _)
  rw [attempt, plays, plays, outcome, counted]
  by_cases room : Size.add 0 transcript.bytes.length ≤ capacity
  · rw [transcript.play_bounded (Bounded.empty capacity) room]
    cases fault : transcript.fault <;>
      simp [Transcript.finish, fault, room, Bounded.empty]
  · obtain ⟨front, required, -, -, -, -, failed⟩ :=
      transcript.play_bounded_full (Bounded.empty capacity) (Nat.zero_le _) (Nat.lt_of_not_le room)
    rw [failed]
    cases fault : transcript.fault <;>
      simp [Transcript.finish, fault, room, Counter.zero]

theorem attempt_of_ok {record : Record} {bytes : List UInt8} (capacity : Nat)
    (h : Wire.encode record.schema record.value = .ok bytes) (small : bytes.length ≤ Size.largest) :
    attempt capacity record =
      if bytes.length ≤ capacity then .encoded bytes else .overflow ⟨capacity, bytes.length⟩ := by
  have whole : Size.add 0 bytes.length = 0 + bytes.length := Size.add_eq (by omega)
  simp only [attempt_eq, h, whole, Nat.zero_add]

theorem attempt_of_error {record : Record} {mismatch : Located Mismatch} (capacity : Nat)
    (h : Wire.encode record.schema record.value = .error mismatch) :
    attempt capacity record = .mismatch mismatch := by
  rw [attempt_eq, h]

/-- How an attempt ends, at every capacity. A record that does not fit its schema is found out
whatever room there is for what comes before the mismatch, and only a record that would be encoded
with more room overflows. -/
theorem attempt_classified (record : Record)
    (short : ∀ bytes, Wire.encode record.schema record.value = .ok bytes →
      bytes.length ≤ Size.largest) (capacity : Nat) :
    (∀ mismatch, attempt capacity record = .mismatch mismatch ↔
      Wire.encode record.schema record.value = .error mismatch) ∧
    (∀ bytes, attempt capacity record = .encoded bytes ↔
      Wire.encode record.schema record.value = .ok bytes ∧ bytes.length ≤ capacity) ∧
    (∀ overflow, attempt capacity record = .overflow overflow ↔
      ∃ bytes, Wire.encode record.schema record.value = .ok bytes ∧ capacity < bytes.length ∧
        overflow = ⟨capacity, bytes.length⟩) := by
  cases encoded : Wire.encode record.schema record.value with
  | error mismatch =>
    have outcome := attempt_of_error capacity encoded
    simp [outcome]
  | ok bytes =>
    have outcome := attempt_of_ok capacity encoded (short bytes encoded)
    by_cases fits : bytes.length ≤ capacity
    · rw [if_pos fits] at outcome
      refine ⟨by simp [outcome], fun other => ?_, by simp [outcome, fits]⟩
      simp only [outcome, Attempt.encoded.injEq, Except.ok.injEq]
      constructor
      · intro same
        exact ⟨same, same ▸ fits⟩
      · exact And.left
    · rw [if_neg fits] at outcome
      refine ⟨by simp [outcome], by simpa [outcome] using fits, fun overflow => ?_⟩
      simp only [outcome, Attempt.overflow.injEq, Except.ok.injEq, exists_eq_left', eq_comm,
        Nat.lt_of_not_le fits, true_and]

/-- A number of eight bytes has no room in seven and has room in eight. A text in the place of a
number is found behind a payload that has no room in three. -/
theorem attempt_classified_around :
    (let record : Record := ⟨.double, .double 1⟩
     attempt 7 record = .overflow ⟨7, 8⟩ ∧
       attempt 8 record = .encoded [1, 0, 0, 0, 0, 0, 0, 0]) ∧
    (let schema := .record "r" [("payload", .bytes), ("n", .long)]
     let value := .record [.bytes [1, 1, 1, 1, 1], .string "x"]
     attempt 3 ⟨schema, value⟩ = .mismatch ⟨[.field "n"], .kind .long .string⟩) := by
  have short (bytes : List UInt8) (h : Wire.encode .double (.double 1) = .ok bytes) :
      bytes.length ≤ Size.largest := by
    obtain rfl : [1, 0, 0, 0, 0, 0, 0, 0] = bytes := Except.ok.inj h
    decide
  have number := attempt_classified ⟨.double, .double 1⟩ short
  refine ⟨⟨?overflows, ?fits⟩, ?mismatch⟩
  case overflows => exact ((number 7).2.2 _).mpr ⟨_, rfl, by decide, rfl⟩
  case fits => exact ((number 8).2.1 _).mpr ⟨rfl, by decide⟩
  case mismatch =>
    refine ((attempt_classified _ (fun bytes h => ?_) 3).1 _).mpr rfl
    cases h

end Encoder

end Clickstream

import Clickstream.Proofs.Canonical

namespace Clickstream

namespace Reader.Exact

variable {α : Type} {step : Reader α} {grammar : Grammar α} {front back rest other : List UInt8}
  {a b : α}

/-- A reader's grammar has one beginning of an input at most, and one value for it. -/
theorem unique (h : Exact step grammar) (one : grammar front a) (two : grammar back b)
    (same : front ++ rest = back ++ other) : front = back ∧ a = b ∧ rest = other := by
  have first := (h _ a rest).mpr ⟨front, rfl, one⟩
  have second := (h _ b other).mpr ⟨back, rfl, two⟩
  rw [same, second] at first
  obtain ⟨rfl, rfl⟩ : b = a ∧ other = rest := by simpa using first
  exact ⟨List.append_cancel_right same, rfl, rfl⟩

/-- What a reader takes does not depend on what it leaves. -/
theorem read_other (h : Exact step grammar) (read : step (front ++ rest) = .ok a rest)
    (other : List UInt8) : step (front ++ other) = .ok a other := by
  obtain ⟨taken, split, stands⟩ := (h _ _ _).mp read
  obtain rfl := List.append_cancel_right split
  exact (h _ _ _).mpr ⟨front, rfl, stands⟩

end Reader.Exact

namespace Wire

variable {schema : Schema} {front back bytes rest : List UInt8} {value : Value}

/-- What stands behind a value is left over, all of it. -/
theorem decode_append (stands : Encodes schema bytes value) (more : rest ≠ []) :
    decode schema (bytes ++ rest) = .error (.trailing rest.length) := by
  have accepted := (read_exact schema (bytes ++ rest) value rest).mpr ⟨bytes, rfl, stands⟩
  cases rest with
  | nil => exact absurd rfl more
  | cons byte others => simp only [decode, accepted]

/-- Nothing that a value begins with, and that is not all of it, is taken for a value or for a
value with something behind it. -/
theorem decode_front (stands : Encodes schema (front ++ back) value) (more : back ≠ []) :
    ∃ corruption, decode schema front = .error (.corrupt corruption) := by
  cases outcome : read schema front with
  | error corruption unread => exact ⟨corruption, by simp only [decode, outcome]⟩
  | ok other left =>
    -- The longer value and this one would begin the same input, so they would be the same bytes.
    obtain ⟨taken, rfl, shorter⟩ := (read_exact schema front other left).mp outcome
    have same : taken ++ (left ++ back) = (taken ++ left ++ back) ++ [] := by simp
    obtain ⟨-, -, none⟩ := (read_exact schema).unique shorter stands same
    exact absurd (List.append_eq_nil_iff.mp none).2 more

/-- Where a value ends shows in its own bytes: with something behind it, it is the same value, and
with anything missing it is none. -/
theorem decode_delimited (schema : Schema) :
    (∀ bytes value, decode schema bytes = .ok value →
      (∀ rest, rest ≠ [] → decode schema (bytes ++ rest) = .error (.trailing rest.length)) ∧
      (∀ front, front <+: bytes → front ≠ bytes →
        ∃ corruption, decode schema front = .error (.corrupt corruption))) ∧
    (∀ taken rest value, read schema (taken ++ rest) = .ok value rest →
      ∀ other, read schema (taken ++ other) = .ok value other) := by
  refine ⟨fun bytes value decoded => ?_, fun _ _ _ => (read_exact schema).read_other⟩
  have stands := decode_ok_iff.mp decoded
  refine ⟨fun rest => decode_append stands, fun front begins strict => ?_⟩
  obtain ⟨back, rfl⟩ := begins
  refine decode_front stands fun none => strict ?_
  rw [none, List.append_nil]

/-- An array in two blocks, the first of which tells its size, and padding in most numbers. -/
theorem decode_delimited_blocks :
    let bytes := [0x03, 0x06, 0x82, 0x00, 0x04, 0x82, 0x00, 0x06, 0x80, 0x00]
    let value := Value.array [.long 1, .long 2, .long 3]
    decode (.array .long) bytes = .ok value ∧
      decode (.array .long) (bytes ++ [0x00, 0x7f]) = .error (.trailing 2) ∧
      (∃ corruption, decode (.array .long) (bytes.take 9) = .error (.corrupt corruption)) ∧
      read (.array .long) (bytes ++ [0x02]) = .ok value [0x02] := by
  intro bytes value
  have decoded : decode (.array .long) bytes = .ok value := rfl
  have first : read (.array .long) (bytes ++ []) = .ok value [] := rfl
  obtain ⟨whole, stream⟩ := decode_delimited (.array .long)
  obtain ⟨longer, shorter⟩ := whole bytes value decoded
  exact ⟨decoded, longer [0x00, 0x7f] (by decide),
    shorter (bytes.take 9) (List.take_prefix 9 bytes) (by decide), stream bytes [] value first _⟩

end Wire

end Clickstream

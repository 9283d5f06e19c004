import Clickstream.Basic
import Clickstream.Buffer
import Clickstream.Capacity
import Clickstream.Fault
import Clickstream.Record
import Clickstream.Wire.Fit

namespace Clickstream

/-- How one try at a fixed capacity ends. An overflow is reported only for a record that fits its
schema, with the length that it needs. -/
inductive Attempt where
  | encoded (bytes : List UInt8)
  | overflow (overflow : Overflow)
  | mismatch (mismatch : Located Mismatch)
  deriving DecidableEq, Repr

/-- What an encoder has to say about its work. -/
inductive EncoderEvent where
  | retry (owner : Owner) (overflow : Overflow) (proposed : Nat) (committed : Bool)
    (attempts : Nat)
  | failure (owner : Owner) (mismatch : Located Mismatch)
  deriving DecidableEq, Repr

namespace EncoderEvent

def level : EncoderEvent → Level
  | .retry .. => .debug
  | .failure .. => .warn

def message : EncoderEvent → String
  | .retry .. => "record overflowed scratch buffer, retrying with larger capacity hint"
  | .failure .. => "record serialization failed"

end EncoderEvent

/-- A record that does not fit its schema. Overflows do not get here: they are retried. -/
structure SerializationError where
  owner : Owner
  mismatch : Located Mismatch
  deriving DecidableEq, Repr

namespace SerializationError

def source (error : SerializationError) : Fault := .mismatch error.mismatch

def code (_ : SerializationError) : String := "buffer.serialization"

def message (error : SerializationError) : String :=
  s!"serialization error for owner `{error.owner.name}`: {error.source.message}"

end SerializationError

/-- How an encoding went: the number of attempts, the last one's capacity, the bytes it took. -/
structure Report where
  attempts : Nat
  capacity : Nat
  length : Nat
  deriving DecidableEq, Repr

/-- What a call of the encoder leaves behind. -/
structure Encoding where
  result : Except SerializationError (Buffer × Report)
  hint : CapacityHint
  events : List EncoderEvent

namespace Encoder

/-- Tries once. If the capacity is too small the record is walked again by a sink that only
counts, so that a mismatch behind the overflow is found and the exact length is known. -/
def attempt (capacity : Nat) (record : Record) : Attempt :=
  match Wire.write record.schema record.value (Bounded.empty capacity) with
  | .ok _ sink => .encoded sink.written.toList
  | .error (.mismatch mismatch) _ => .mismatch mismatch
  | .error (.overflow _) _ =>
    match Wire.write record.schema record.value Counter.zero with
    | .error (.mismatch mismatch) _ => .mismatch mismatch
    | .ok _ sink | .error (.overflow _) sink => .overflow ⟨capacity, sink.length⟩

theorem lt_largest_of_overflow {capacity : Nat} {record : Record} {overflow : Overflow}
    (h : attempt capacity record = .overflow overflow) : capacity < Size.largest := by
  refine Nat.lt_of_not_le fun full => ?_
  have fits := Wire.write_fits record.schema record.value (Bounded.empty capacity) full
  unfold attempt at h
  generalize Wire.write record.schema record.value (Bounded.empty capacity) = outcome at fits h
  match outcome, fits with
  | .ok _ _, _ => cases h
  | .error (.mismatch _) _, _ => cases h

/-- The number of attempts after one more; it is kept in 32 bits. -/
def countAttempt (attempts : Nat) : Nat := min (attempts + 1) 0xffff_ffff

/-- Encodes after so many attempts. Each retry has a greater capacity, and the greatest of all
never overflows. -/
def encodeAfter (attempts : Nat) (owner : Owner) (record : Record) (hint : CapacityHint) :
    Encoding :=
  let attempts := countAttempt attempts
  match _h : attempt hint.current record with
  | .encoded bytes => ⟨.ok (⟨owner, bytes⟩, ⟨attempts, hint.current, bytes.length⟩), hint, []⟩
  | .mismatch mismatch => ⟨.error ⟨owner, mismatch⟩, hint, [.failure owner mismatch]⟩
  | .overflow overflow =>
    let proposal := hint.propose hint.current
    let event := .retry owner overflow (nextCapacity hint.current) proposal.committed attempts
    let encoding := encodeAfter attempts owner record proposal.hint
    { encoding with events := event :: encoding.events }
termination_by Size.largest - hint.current
decreasing_by
  have full := lt_largest_of_overflow _h
  have := lt_nextCapacity full
  simp only [CapacityHint.propose, ↓reduceIte]
  omega

section

variable {attempts : Nat} {owner : Owner} {record : Record} {hint : CapacityHint}

theorem encodeAfter_encoded {bytes : List UInt8}
    (h : attempt hint.current record = .encoded bytes) :
    encodeAfter attempts owner record hint =
      ⟨.ok (⟨owner, bytes⟩, ⟨countAttempt attempts, hint.current, bytes.length⟩), hint, []⟩ := by
  rw [encodeAfter]
  split <;> simp_all

theorem encodeAfter_mismatch {mismatch : Located Mismatch}
    (h : attempt hint.current record = .mismatch mismatch) :
    encodeAfter attempts owner record hint =
      ⟨.error ⟨owner, mismatch⟩, hint, [.failure owner mismatch]⟩ := by
  rw [encodeAfter]
  split <;> simp_all

/-- An encoder that has the hint to itself always gets it to grow. -/
theorem encodeAfter_overflow {overflow : Overflow}
    (h : attempt hint.current record = .overflow overflow) :
    encodeAfter attempts owner record hint =
      let later := encodeAfter (countAttempt attempts) owner record ⟨nextCapacity hint.current⟩
      { later with
        events := .retry owner overflow (nextCapacity hint.current) true (countAttempt attempts) ::
          later.events } := by
  rw [encodeAfter]
  split <;> simp_all [CapacityHint.propose]

end

/-- Encodes a record in a buffer of the size that the hint tells, and grows the hint until the
record fits. -/
def encode (owner : Owner) (record : Record) (hint : CapacityHint) : Encoding :=
  encodeAfter 0 owner record hint

end Encoder

end Clickstream

import Clickstream.Datum
import Clickstream.Wire.Sink

namespace Clickstream

/-- A full sink can be replaced by a larger one. A mismatch stays whatever the sink. -/
inductive WriteError where
  | overflow (overflow : Overflow)
  | mismatch (mismatch : Located Mismatch)
  deriving DecidableEq, Repr

def WriteError.within (segment : Segment) : WriteError → WriteError
  | overflow refused => overflow refused
  | mismatch located => mismatch (located.within segment)

namespace Varint

/-- Numbers near zero get small codes, whatever their sign. -/
def zigzag (n : Int64) : UInt64 := ((n <<< 1) ^^^ (n >>> 63)).toUInt64

/-- Groups of seven bits, low group first, the high bit set on all but the last. -/
def groups : Nat → UInt64 → List UInt8
  | 0, _ => []
  | left + 1, code =>
    let low := (code &&& 0x7f).toUInt8
    let high := code >>> 7
    if high = 0 then [low] else (low ||| 0x80) :: groups left high

/-- Ten groups hold every 64-bit code. -/
def encode (n : Int64) : List UInt8 := groups 10 (zigzag n)

end Varint

/-- A step of writing. The sink is there after a failure too, with the bytes put before it. -/
abbrev Writer (σ : Type) := EStateM WriteError σ

namespace Writer

variable {σ : Type}

def put [Sink σ] (bytes : List UInt8) : Writer σ Unit := fun sink =>
  match Sink.put sink bytes with
  | .ok sink => .ok () sink
  | .error refused => .error (.overflow refused) sink

def refuse (mismatch : Mismatch) : Writer σ Unit := throw (.mismatch (.here mismatch))

def within (segment : Segment) (step : Writer σ Unit) : Writer σ Unit := fun sink =>
  match step sink with
  | .ok value sink => .ok value sink
  | .error error sink => .error (error.within segment) sink

instance [Sink σ] : Writes (Writer σ) where
  put := put
  refuse := refuse
  within := within
  code n := pure (Varint.encode n)
  next position := pure (position + 1)

end Writer

namespace Wire

variable {σ : Type} [Sink σ]

abbrev writeLong (n : Int64) : Writer σ Unit := Datum.writeLong n

/-- Writes a value under a schema. -/
abbrev write (schema : Schema) (value : Value) : Writer σ Unit := Datum.write schema value

theorem writeBytes_eq (data : List UInt8) : (Datum.writeBytes data : Writer σ Unit) =
    writeLong (.ofNat data.length) >>= fun _ => Writer.put data := rfl

theorem writeItems_cons (item : Schema) (position : Nat) (value : Value) (rest : List Value) :
    (Datum.writeItems item position (value :: rest) : Writer σ Unit) =
      Writer.within (.index position) (write item value) >>= fun _ =>
        Datum.writeItems item (position + 1) rest := rfl

theorem writeEntries_cons (schema : Schema) (key : String) (value : Value)
    (rest : List (String × Value)) :
    (Datum.writeEntries schema ((key, value) :: rest) : Writer σ Unit) =
      Datum.writeBytes (Utf8.encode key) >>= fun _ =>
        Writer.within (.key key) (write schema value) >>= fun _ =>
          Datum.writeEntries schema rest := rfl

theorem writeFields_cons (name : String) (schema : Schema) (fields : List (String × Schema))
    (value : Value) (values : List Value) :
    (Datum.writeFields ((name, schema) :: fields) (value :: values) : Writer σ Unit) =
      Writer.within (.field name) (write schema value) >>= fun _ =>
        Datum.writeFields fields values := rfl

/-- The bytes of a value. Nothing overflows here: the sink keeps everything. -/
def encode (schema : Schema) (value : Value) : Except (Located Mismatch) (List UInt8) :=
  match write schema value Unbounded.empty with
  | .error (.mismatch mismatch) _ => .error mismatch
  | .ok _ sink | .error (.overflow _) sink => .ok sink.written.toList

end Wire

end Clickstream

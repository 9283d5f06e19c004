import Clickstream.Basic

namespace Clickstream

/-- A put refused by a sink of `capacity` bytes, which would have held `required` after it. -/
structure Overflow where
  capacity : Nat
  required : Nat
  deriving DecidableEq, Repr

namespace Overflow

def message (overflow : Overflow) : String :=
  s!"sink overflow: capacity {overflow.capacity} bytes, at least {overflow.required} bytes required"

end Overflow

/-- Where encoded bytes go. A put is taken as a whole or refused as a whole: a refusal has no
state of its own, so the sink stays as it was. -/
class Sink (σ : Type) where
  put : σ → List UInt8 → Except Overflow σ

/-- Keeps everything. -/
structure Unbounded where
  written : Array UInt8

def Unbounded.empty : Unbounded := ⟨#[]⟩

instance : Sink Unbounded where
  put sink bytes := .ok ⟨sink.written ++ bytes⟩

/-- Keeps the number of bytes only. -/
structure Counter where
  length : Nat

def Counter.zero : Counter := ⟨0⟩

def Counter.isEmpty (sink : Counter) : Bool := sink.length == 0

instance : Sink Counter where
  put sink bytes := .ok ⟨Size.add sink.length bytes.length⟩

/-- Keeps at most `limit` bytes. -/
structure Bounded where
  limit : Nat
  written : Array UInt8

def Bounded.empty (limit : Nat) : Bounded := ⟨limit, #[]⟩

instance : Sink Bounded where
  put sink bytes :=
    let required := Size.add sink.written.size bytes.length
    if required > sink.limit then .error ⟨sink.limit, required⟩
    else .ok ⟨sink.limit, sink.written ++ bytes⟩

end Clickstream

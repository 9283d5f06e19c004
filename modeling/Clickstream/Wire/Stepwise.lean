import Clickstream.Fault
import Clickstream.Machine
import Clickstream.Source

/-! Writing and reading down to the single operations on words, cells and bytes. -/

namespace Clickstream.Wire.Stepwise

open Machine

section Writing

variable {σ : Type}

abbrev Writer (σ : Type) := Machine WriteError σ

/-- Stores one group of a code, and tells the number of groups and what is left of the code, or the
number of groups if nothing is left. -/
def storeGroup : List UInt8 × Nat × UInt64 →
    Writer σ ((List UInt8 × Nat × UInt64) ⊕ (List UInt8 × Nat))
  | (scratch, length, code) => do
    let low := (code &&& 0x7f).toUInt8
    let high ← shift (code >>> .ofNat ·) 7
    if high = 0 then
      let scratch ← store scratch length low
      let length ← add Size.largest length 1
      return .inr (scratch, length)
    else
      let scratch ← store scratch length (low ||| 0x80)
      let length ← add Size.largest length 1
      return .inl (scratch, length, high)

/-- The groups of a number are gathered in ten cells. -/
def gather (n : Int64) : Writer σ (List UInt8) := do
  let twice ← shift (n <<< .ofNat ·) 1
  let sign ← shift (n >>> .ofNat ·) 63
  let (scratch, length) ← loop (fun (_, _, code) _ => code.toNat) storeGroup
    (List.replicate 10 0, 0, (twice ^^^ sign).toUInt64)
  front scratch length

instance [Sink σ] : Writes (Writer σ) where
  put bytes := plain (Writer.put bytes)
  refuse mismatch := plain (Writer.refuse mismatch)
  within segment step := inside (WriteError.within segment) step
  code := gather
  next position := add Size.largest position 1

def write [Sink σ] (schema : Schema) (value : Value) : Writer σ Unit := Datum.write schema value

end Writing

section Reading

variable {σ : Type} [Source σ]

/-- Reading from any source: it is asked how much is left before it is asked for it. Nobody answers
who asks for more. -/
instance : Reads (Machine (Located Corruption) σ) where
  refuse corruption := throw (.fault (.here corruption))
  within segment step := inside (Located.within segment) step
  fewer? count := fun source =>
    let available := Source.remaining source
    .ok (if available < count then some available else none) source
  byte := fun source =>
    match Source.next? source with
    | some (byte, rest) => .ok byte rest
    | none => trap (.pastEnd 1 (Source.remaining source)) source
  copy count := fun source =>
    match Source.copy? source count with
    | some (data, rest) => .ok data rest
    | none => trap (.pastEnd count (Source.remaining source)) source
  absent count position := trap (.index count position)
  shift := shift
  add := add 0xffff_ffff
  negate := negate
  loop := loop fun _ source => Source.remaining source

abbrev Reader := Machine (Located Corruption) (List UInt8)

def read (schema : Schema) : Reader Value := Datum.read schema

def decode (schema : Schema) (bytes : List UInt8) : Except (Failure Fault) Value :=
  match read schema bytes with
  | .ok value [] => .ok value
  | .ok _ rest => .error (.fault (.trailing rest.length))
  | .error (.fault corruption) _ => .error (.fault (.corrupt corruption))
  | .error (.trap trap) _ => .error (.trap trap)

end Reading

end Clickstream.Wire.Stepwise

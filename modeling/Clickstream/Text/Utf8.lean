namespace Clickstream.Utf8

def encode (text : String) : List UInt8 := text.toUTF8.data.toList

/-- The first place at which bytes stop being text. `start` is the length of the longest prefix
that is text; after it come `length` bytes that begin no character, or an end too early. -/
inductive Fault where
  | invalid (start length : Nat)
  | incomplete (start : Nat)
  deriving DecidableEq, Repr

namespace Fault

def text : Fault → String
  | .invalid start length => s!"invalid utf-8 sequence of {length} bytes from index {start}"
  | .incomplete start => s!"incomplete utf-8 byte sequence from index {start}"

end Fault

/-- For a byte that opens a character of several bytes, the ranges of the bytes that follow. The
second byte's range keeps out long forms, surrogates and code points past the last one. -/
def followers? (opening : UInt8) : Option (List (UInt8 × UInt8)) :=
  let plain : UInt8 × UInt8 := (0x80, 0xbf)
  if opening < 0xc2 then none
  else if opening < 0xe0 then some [plain]
  else if opening = 0xe0 then some [(0xa0, 0xbf), plain]
  else if opening = 0xed then some [(0x80, 0x9f), plain]
  else if opening < 0xf0 then some [plain, plain]
  else if opening = 0xf0 then some [(0x90, 0xbf), plain, plain]
  else if opening < 0xf4 then some [plain, plain, plain]
  else if opening = 0xf4 then some [(0x80, 0x8f), plain, plain]
  else none

/-- Scans on from a character that opened at `start`, of which `seen` bytes are read and `expected`
are still to come. -/
def scan (start seen : Nat) (expected : List (UInt8 × UInt8)) : List UInt8 → Option Fault
  | [] => if expected.isEmpty then none else some (.incomplete start)
  | byte :: rest =>
    match expected with
    | (low, high) :: expected =>
      if low ≤ byte ∧ byte ≤ high then scan start (seen + 1) expected rest
      else some (.invalid start seen)
    | [] =>
      if byte < 0x80 then scan (start + seen) 1 [] rest
      else
        match followers? byte with
        | some expected => scan (start + seen) 1 expected rest
        | none => some (.invalid (start + seen) 1)

def fault? (bytes : List UInt8) : Option Fault := scan 0 0 [] bytes

/-- Bytes that are not text have a fault, so the default is never taken. -/
def decode (bytes : List UInt8) : Except Fault String :=
  match String.fromUTF8? ⟨bytes.toArray⟩ with
  | some text => .ok text
  | none => .error ((fault? bytes).getD (.incomplete 0))

end Clickstream.Utf8

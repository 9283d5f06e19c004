namespace Clickstream.Decimal

/-- The digits of ASCII and no others. -/
def isDigit (c : Char) : Bool := '0' ≤ c && c ≤ '9'

/-- The number that digits stand for in a base, the first digit counting most. -/
def ofDigits (base : Nat) (digits : List Nat) : Nat :=
  digits.foldl (fun number digit => base * number + digit) 0

/-- The value of a digit or a letter, `a` and `A` being ten. -/
def digitValue (c : Char) : Nat :=
  if isDigit c then c.toNat - 48
  else if 'a' ≤ c then c.toNat - 87
  else c.toNat - 55

def number (base : Nat) (digits : List Char) : Nat := ofDigits base (digits.map digitValue)

/-! The shortest text of a double. -/

/-- The finite double `mantissa * 2 ^ exponent`. -/
structure Binary where
  mantissa : Nat
  exponent : Int
  /-- Just above a power of two the neighbour below is half as far as the one above. -/
  narrowBelow : Bool
  deriving DecidableEq, Repr

def signBit : UInt64 := 0x8000000000000000

def infinityBits : UInt64 := 0x7ff0000000000000

def isNegative (bits : UInt64) : Bool := bits &&& signBit != 0

/-- The absolute value of a double that is neither infinite nor a NaN. -/
def Binary.ofBits (bits : UInt64) : Binary :=
  let exponent := ((bits >>> 52) &&& 0x7ff).toNat
  let fraction := (bits &&& 0xfffffffffffff).toNat
  if exponent = 0 then ⟨fraction, -1074, false⟩
  else ⟨0x10_0000_0000_0000 + fraction, exponent - 1075, fraction == 0 && 1 < exponent⟩

/-- The number `digits * 10 ^ exponent`. -/
structure Scaled where
  digits : Nat
  exponent : Int
  deriving DecidableEq, Repr

namespace Binary

/-- The value in units of `10 ^ exponent`, as a numerator per unit of the mantissa and a
denominator. -/
def ratio (x : Binary) (exponent : Int) : Nat × Nat :=
  (Nat.pow 2 x.exponent.toNat * Nat.pow 10 (-exponent).toNat,
    Nat.pow 2 (-x.exponent).toNat * Nat.pow 10 exponent.toNat)

/-- Whether a decimal lies among the reals that round to the double. They reach half way to
either neighbour, and as far as that if the mantissa is even. -/
def readsBack (x : Binary) (decimal : Scaled) : Bool :=
  let (step, unit) := x.ratio decimal.exponent
  let place := 4 * decimal.digits * unit
  let low := (4 * x.mantissa - if x.narrowBelow then 1 else 2) * step
  let high := (4 * x.mantissa + 2) * step
  if x.mantissa % 2 = 0 then low ≤ place && place ≤ high else low < place && place < high

/-- Of the two decimals around the value on a grid the one that reads back, the nearer if both do,
and the upper one if both are as near. -/
def onGrid? (x : Binary) (exponent : Int) : Option Scaled :=
  let (step, unit) := x.ratio exponent
  let below : Scaled := ⟨x.mantissa * step / unit, exponent⟩
  let above : Scaled := ⟨below.digits + 1, exponent⟩
  let nearBelow := 2 * (x.mantissa * step) < (2 * below.digits + 1) * unit
  if x.readsBack below && (nearBelow || !x.readsBack above) then some below
  else if x.readsBack above then some above
  else none

/-- The least power of ten above the value, which is not zero. -/
def scale (x : Binary) : Int :=
  let (step, unit) := x.ratio 0
  let whole := x.mantissa * step / unit
  if whole = 0 then
    match (List.range 400).find? fun zeros => unit ≤ x.mantissa * step * Nat.pow 10 (zeros + 1) with
    | some zeros => -zeros
    | none => -400
  else (Nat.toDigits 10 whole).length

/-- The value itself, with as many digits as it takes. -/
def exact (x : Binary) : Scaled :=
  if 0 ≤ x.exponent then ⟨x.mantissa * Nat.pow 2 x.exponent.toNat, 0⟩
  else ⟨x.mantissa * Nat.pow 5 (-x.exponent).toNat, x.exponent⟩

/-- The fewest digits that read back: the coarsest grid of powers of ten that has such a decimal
has it without a zero at the end. The first grid is that of the power of ten just above the value,
which itself may read back. Seventeen digits always do. -/
def shortest (x : Binary) : Scaled :=
  let scale := x.scale
  ((List.range 18).findSome? fun (count : Nat) => x.onGrid? (scale - count)).getD x.exact

end Binary

/-- The whole number before the point and the digits behind it, one zero at least. -/
def Scaled.positional (decimal : Scaled) : String :=
  if 0 ≤ decimal.exponent then s!"{decimal.digits * Nat.pow 10 decimal.exponent.toNat}.0"
  else
    let places := (-decimal.exponent).toNat
    let fraction := Nat.toDigits 10 (decimal.digits % Nat.pow 10 places)
    let zeros := List.replicate (places - fraction.length) '0'
    s!"{decimal.digits / Nat.pow 10 places}." ++ String.ofList (zeros ++ fraction)

/-- A double in positional notation, with the fewest digits that read back. -/
def text (bits : UInt64) : String :=
  let sign := if isNegative bits then "-" else ""
  let magnitude := bits &&& ~~~signBit
  if magnitude > infinityBits then "NaN"
  else if magnitude = infinityBits then sign ++ "inf"
  else if magnitude = 0 then sign ++ "0.0"
  else sign ++ (Binary.ofBits magnitude).shortest.positional

/-- The double nearest to `digits * 10 ^ exponent`. Numbers with a leading digit far outside the
range of doubles are not computed. -/
def nearest (negative : Bool) (digits : Nat) (exponent : Int) : UInt64 :=
  let top := (Nat.toDigits 10 digits).length + exponent
  let magnitude :=
    if digits = 0 ∨ top < -400 then 0
    else if 400 < top then infinityBits
    else (Float.ofScientific digits (decide (exponent < 0)) exponent.natAbs).toBits
  if negative then magnitude ||| signBit else magnitude

end Clickstream.Decimal

import Clickstream.Decimal

namespace Clickstream

namespace Text

/-- The code points that are white space, as closed ranges in ascending order. -/
def blankRanges : List (Nat × Nat) :=
  [(0x09, 0x0d), (0x20, 0x20), (0x85, 0x85), (0xa0, 0xa0), (0x1680, 0x1680), (0x2000, 0x200a),
    (0x2028, 0x2029), (0x202f, 0x202f), (0x205f, 0x205f), (0x3000, 0x3000)]

def isBlank (c : Char) : Bool := blankRanges.any fun (low, high) => low ≤ c.toNat && c.toNat ≤ high

example : (blankRanges.map fun (low, high) => high + 1 - low).sum = 25 := by decide

/-- Without the white space at either end. -/
def trim (text : List Char) : List Char :=
  ((text.dropWhile isBlank).reverse.dropWhile isBlank).reverse

end Text

def nanosPerSecond : Nat := 1_000_000_000

/-- What is below fits 64 bits. -/
def wordLimit : Nat := 0x1_0000_0000_0000_0000

/-- What is below fits 128 bits. -/
def wideLimit : Nat := wordLimit * wordLimit

/-- A span of time. Its whole seconds fit 64 bits. -/
structure Duration where
  nanos : Nat
  fits : nanos / nanosPerSecond < wordLimit
  deriving DecidableEq

namespace Duration

def seconds (duration : Duration) : Nat := duration.nanos / nanosPerSecond

/-- What is left beside the whole seconds. -/
def subsecondNanos (duration : Duration) : Nat := duration.nanos % nanosPerSecond

def ofNanos? (nanos : Nat) : Option Duration :=
  if fits : nanos / nanosPerSecond < wordLimit then some ⟨nanos, fits⟩ else none

end Duration

inductive TimeUnit where
  | day | hour | minute | second | milli | micro | nano
  deriving DecidableEq, Repr

namespace TimeUnit

/-- The longest first. -/
def all : List TimeUnit := [day, hour, minute, second, milli, micro, nano]

def nanos : TimeUnit → Nat
  | day => 86400 * nanosPerSecond
  | hour => 3600 * nanosPerSecond
  | minute => 60 * nanosPerSecond
  | second => nanosPerSecond
  | milli => 1_000_000
  | micro => 1_000
  | nano => 1

/-- The names under which a unit may be given. -/
def aliases : TimeUnit → List String
  | day => ["d", "day", "days"]
  | hour => ["h", "hour", "hours"]
  | minute => ["m", "min", "mins", "minute", "minutes"]
  | second => ["s", "sec", "secs", "second", "seconds"]
  | milli => ["ms", "milli", "millis", "millisecond", "milliseconds"]
  | micro => ["us", "micro", "micros", "microsecond", "microseconds"]
  | nano => ["ns", "nano", "nanos", "nanosecond", "nanoseconds"]

def ofName? (name : String) : Option TimeUnit := all.find? fun unit => name ∈ unit.aliases

/-- The name that is written beside a count. -/
def label (count : Nat) : TimeUnit → String
  | day => if count = 1 then "day" else "days"
  | hour => if count = 1 then "hour" else "hours"
  | minute => if count = 1 then "minute" else "minutes"
  | second => if count = 1 then "second" else "seconds"
  | milli => "ms"
  | micro => "us"
  | nano => "ns"

end TimeUnit

/-- Why a text is not a duration. -/
inductive DurationFlaw where
  | noInteger
  | integerRange
  | unknownUnit (unit : String)
  | overflow
  deriving DecidableEq, Repr

def DurationFlaw.text : DurationFlaw → String
  | .noInteger => "expected a leading integer"
  | .integerRange => "integer out of range"
  | .unknownUnit unit => s!"unknown time unit `{unit}`"
  | .overflow => "duration overflows"

/-- A flaw and the whole text that it was found in. -/
structure DurationError where
  input : String
  flaw : DurationFlaw
  deriving DecidableEq, Repr

def DurationError.message (error : DurationError) : String :=
  s!"invalid duration `{error.input}`: {error.flaw.text}"

namespace Duration

/-- A number without a unit counts milliseconds. -/
def unitOf (name : List Char) : Except DurationFlaw TimeUnit :=
  if name = [] then .ok .milli
  else
    match TimeUnit.ofName? (String.ofList name) with
    | some unit => .ok unit
    | none => .error (.unknownUnit (String.ofList name))

/-- Reads a number and perhaps a unit. The number and its product with the unit are held in 128
bits, the seconds in 64. -/
def ofChars (text : List Char) : Except DurationFlaw Duration :=
  let digits := text.takeWhile Decimal.isDigit
  let name := (text.dropWhile Decimal.isDigit).dropWhile Text.isBlank
  if digits = [] then .error .noInteger
  else
    let amount := Decimal.number 10 digits
    if wideLimit ≤ amount then .error .integerRange
    else
      match unitOf name with
      | .error flaw => .error flaw
      | .ok unit =>
        let nanos := amount * unit.nanos
        if wideLimit ≤ nanos then .error .overflow
        else
          match ofNanos? nanos with
          | some duration => .ok duration
          | none => .error .overflow

def parse (text : String) : Except DurationError Duration :=
  (ofChars (Text.trim text.toList)).mapError fun flaw => ⟨text, flaw⟩

/-- The longest unit of which the duration is a whole number. -/
def exactUnit (duration : Duration) : TimeUnit :=
  (TimeUnit.all.find? fun unit => duration.nanos % unit.nanos = 0).getD .nano

/-- Every unit divides zero, which is written in milliseconds all the same. -/
def format (duration : Duration) : String :=
  if duration.nanos = 0 then "0 ms"
  else
    let unit := duration.exactUnit
    let count := duration.nanos / unit.nanos
    s!"{count} {unit.label count}"

theorem millis_fit {millis : Nat} (h : millis < wordLimit) :
    millis * TimeUnit.milli.nanos / nanosPerSecond < wordLimit := by
  simp only [TimeUnit.nanos, nanosPerSecond, wordLimit] at h ⊢
  omega

def ofMillis (millis : Nat) (h : millis < wordLimit) : Duration := ⟨_, millis_fit h⟩

end Duration

end Clickstream

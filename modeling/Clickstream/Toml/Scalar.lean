import Clickstream.Decimal
import Clickstream.Toml.Parser
import Clickstream.Toml.Value

namespace Clickstream.Toml

open Clickstream.Toml.Parser Decimal

/-! Blanks and comments. -/

def isSpace (c : Char) : Bool := c == ' ' || c == '\t'

def space : Parser Unit := do _ ← run isSpace

/-- The end of a line, always read as a line feed. -/
def newline : Parser Char :=
  char '\n' <|> (char '\x0d' *> char '\n')

/-- A tab, or a character that is no control. -/
def isText (c : Char) : Bool := c == '\t' || ' ' ≤ c && c ≠ '\x7f'

def comment : Parser Unit := do
  _ ← char '#'
  _ ← run isText

/-- Blanks, comments and ends of lines. -/
def gap : Parser Unit := do
  _ ← many ((do _ ← satisfy isSpace) <|> (do _ ← newline) <|> comment)

/-! Strings. -/

def isHexDigit (c : Char) : Bool := isDigit c || 'a' ≤ c && c ≤ 'f' || 'A' ≤ c && c ≤ 'F'

/-- A character by its code, which must not be that of a surrogate. -/
def coded (digits : Nat) : Parser Char := do
  let code := number 16 (← exactly isHexDigit digits)
  if h : code.isValidChar then return Char.ofNatAux code h else failure

def escaped : Parser Char := do
  _ ← char '\\'
  match ← satisfy fun _ => true with
  | 'b' => return '\x08'
  | 't' => return '\t'
  | 'n' => return '\n'
  | 'f' => return '\x0c'
  | 'r' => return '\x0d'
  | '\x22' => return '\x22'
  | '\\' => return '\\'
  | 'u' => coded 4
  | 'U' => coded 8
  | _ => failure

def quotation : Char := '\x22'

def apostrophe : Char := '\x27'

/-- A character that stands for itself in a string between two of `delimiter`. -/
def isPlain (delimiter c : Char) : Bool :=
  isText c && c != delimiter && (delimiter != quotation || c != '\\')

def between (delimiter : Char) (character : Parser Char) : Parser String := do
  _ ← char delimiter
  let text ← many character
  _ ← char delimiter
  return String.ofList text

def basicString : Parser String := between quotation (satisfy (isPlain quotation) <|> escaped)

def literalString : Parser String := between apostrophe (satisfy (isPlain apostrophe))

/-- One or two delimiters, which do not yet end a string over several lines. -/
def fewDelimiters (delimiter : Char) : Parser (List Char) := do
  let delimiters ← run1 (· == delimiter)
  guardThat (delimiters.length ≤ 2)
  return delimiters

/-- The end of a string over several lines. Up to two delimiters before the last three belong to
the string. -/
def closing (delimiter : Char) : Parser (List Char) := do
  let delimiters ← run (· == delimiter)
  guardThat (3 ≤ delimiters.length && delimiters.length ≤ 5)
  return delimiters.drop 3

/-- A backslash before the end of a line takes away all white space up to the next character. -/
def continued : Parser (List Char) := do
  _ ← char '\\'
  space
  _ ← newline
  _ ← many (satisfy isSpace <|> newline)
  return []

/-- A string over several lines. An end of line right after the opening is not part of it. -/
def multiline (delimiter : Char) (piece : Parser (List Char)) : Parser String := do
  _ ← exactly (· == delimiter) 3
  _ ← optional newline
  let plain := (([·]) <$> (satisfy (isPlain delimiter) <|> newline)) <|> piece
  let text ← many (plain <|> fewDelimiters delimiter)
  let last ← closing delimiter
  return String.ofList (text.flatten ++ last)

def string : Parser String :=
  multiline quotation (continued <|> (([·]) <$> escaped)) <|> basicString <|>
    multiline apostrophe failure <|> literalString

/-! Numbers. -/

/-- Digits, between any two of which there may be one underscore. -/
def digits (p : Char → Bool) : Parser (List Char) := do
  let first ← satisfy p
  let rest ← many (satisfy p <|> (char '_' *> satisfy p))
  return first :: rest

/-- Whether there is a minus. A plus is allowed and says nothing. -/
def sign : Parser Bool := do
  let c ← optional (satisfy fun c => c == '+' || c == '-')
  return c == some '-'

/-- The sign and the digits of a whole number, which has no leading zeros. -/
def whole : Parser (Bool × List Char) := do
  let negative ← sign
  let digits ← (char '0' *> pure ['0']) <|> digits isDigit
  return (negative, digits)

/-- Integers are held in 64 bits. -/
def bounded (n : Int) : Parser Int64 := do
  guardThat (decide (Int64.minValue.toInt ≤ n ∧ n ≤ Int64.maxValue.toInt))
  return .ofInt n

def based (mark : String) (base : Nat) (p : Char → Bool) : Parser Int64 := do
  literal mark
  bounded (number base (← digits p))

def integer : Parser Int64 :=
  based "0x" 16 isHexDigit <|> based "0o" 8 (fun c => '0' ≤ c && c ≤ '7') <|>
    based "0b" 2 (fun c => c == '0' || c == '1') <|> do
    let (negative, digits) ← whole
    let magnitude : Int := number 10 digits
    bounded (if negative then -magnitude else magnitude)

def fraction : Parser (List Char) := char '.' *> digits isDigit

def exponent : Parser Int := do
  _ ← satisfy fun c => c == 'e' || c == 'E'
  let negative ← sign
  let magnitude : Int := number 10 (← digits isDigit)
  return if negative then -magnitude else magnitude

/-- A number with a fraction, an exponent or both. One too great for a double is refused, but one
too small is minus infinity. -/
def decimalFloat : Parser UInt64 := do
  let (negative, digits) ← whole
  let (fraction, exponent) ←
    (do return ([], ← exponent)) <|> (do return (← fraction, (← optional exponent).getD 0))
  let bits := nearest negative (number 10 (digits ++ fraction)) (exponent - fraction.length)
  guardThat (bits != infinityBits)
  return bits

def specialFloat : Parser UInt64 := do
  let negative ← sign
  let magnitude ←
    (literal "inf" *> pure infinityBits) <|> (literal "nan" *> pure 0x7ff8000000000000)
  return if negative then magnitude ||| signBit else magnitude

def float : Parser UInt64 := decimalFloat <|> specialFloat

def boolean : Parser Bool := (literal "true" *> pure true) <|> (literal "false" *> pure false)

/-! Dates and times. -/

/-- A number of so many digits, in a range. -/
def field (count low high : Nat) : Parser Nat := do
  let n := number 10 (← exactly isDigit count)
  guardThat (low ≤ n && n ≤ high)
  return n

def isLeap (year : Nat) : Bool := year % 4 == 0 && (year % 100 != 0 || year % 400 == 0)

def daysIn (year : Nat) : Nat → Nat
  | 2 => if isLeap year then 29 else 28
  | 4 | 6 | 9 | 11 => 30
  | _ => 31

def date : Parser Unit := do
  let year ← field 4 0 9999
  _ ← char '-'
  let month ← field 2 1 12
  _ ← char '-'
  _ ← field 2 1 (daysIn year month)

/-- A time of day. A minute may have a leap second. -/
def time : Parser Unit := do
  _ ← field 2 0 23
  _ ← char ':'
  _ ← field 2 0 59
  _ ← char ':'
  _ ← field 2 0 60
  _ ← optional (char '.' *> run1 isDigit)

def offset : Parser Unit :=
  (do _ ← satisfy fun c => c == 'Z' || c == 'z') <|> do
    _ ← satisfy fun c => c == '+' || c == '-'
    _ ← field 2 0 23
    _ ← char ':'
    _ ← field 2 0 59

def dateTime : Parser Unit :=
  (do
    date
    _ ← optional do
      _ ← satisfy fun c => c == 'T' || c == 't' || c == ' '
      time
      _ ← optional offset) <|>
    time

/-- A value that holds no other. -/
def scalar : Parser Value :=
  (.string <$> string) <|> (.boolean <$> boolean) <|> (dateTime *> pure .dateTime) <|>
    (.float <$> float) <|> (.integer <$> integer)

end Clickstream.Toml

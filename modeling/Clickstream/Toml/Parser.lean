namespace Clickstream.Toml

/-- Reads something from the front of a text, or fails and leaves the text as it was. -/
abbrev Parser := StateT (List Char) Option

namespace Parser

variable {α : Type}

def satisfy (p : Char → Bool) : Parser Char
  | c :: rest => if p c then some (c, rest) else none
  | [] => none

def char (c : Char) : Parser Char := satisfy (· == c)

def literal (text : String) : Parser Unit := text.toList.forM fun c => do _ ← char c

/-- The longest run of characters of a kind. -/
def run (p : Char → Bool) : Parser (List Char) := fun text =>
  some (text.takeWhile p, text.dropWhile p)

def run1 (p : Char → Bool) : Parser (List Char) := do
  let c ← satisfy p
  let rest ← run p
  return c :: rest

def exactly (p : Char → Bool) : Nat → Parser (List Char)
  | 0 => pure []
  | count + 1 => do
    let c ← satisfy p
    let rest ← exactly p count
    return c :: rest

/-- Repeats no more often than there are characters in the first list. -/
def repeatWithin (parser : Parser α) : List Char → Parser (List α)
  | [], text => some ([], text)
  | _ :: bound, text =>
    match parser text with
    | none => some ([], text)
    | some (a, rest) => (repeatWithin parser bound rest).map fun (as, rest) => (a :: as, rest)

/-- Repeats until the parser fails. The parser takes a character at least, so the text itself
bounds the number of times. -/
def many (parser : Parser α) : Parser (List α) := fun text => repeatWithin parser text text

/-- One or more, with a separator between two. -/
def separated (separator : Char) (parser : Parser α) : Parser (List α) := do
  let a ← parser
  let rest ← many (char separator *> parser)
  return a :: rest

def guardThat (condition : Bool) : Parser Unit := if condition then pure () else failure

def atEnd : Parser Unit := do guardThat (← get).isEmpty

end Parser

end Clickstream.Toml

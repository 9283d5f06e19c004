import Clickstream.Toml.Scalar
import Clickstream.Toml.Tree

namespace Clickstream.Toml

open Clickstream.Toml.Parser

/-- Keys of this many parts, and values this deep, are refused. -/
def nestingLimit : Nat := 80

def isBareKey (c : Char) : Bool := c.isAlphanum || c == '-' || c == '_'

def simpleKey : Parser String :=
  basicString <|> literalString <|> (String.ofList <$> run1 isBareKey)

/-- A key as the path to its table and its own name. -/
def key : Parser (List String × String) := do
  let parts ← separated '.' (space *> simpleKey <* space)
  guardThat (parts.length < nestingLimit)
  return (parts.dropLast, parts.getLastD "")

/-- A key and its value. -/
def pair (value : Parser Value) : Parser (List String × String × Value) := do
  let (path, name) ← key
  _ ← char '='
  space
  return (path, name, ← value)

/-- A comma may follow the last item. -/
def array (value : Parser Value) : Parser Value := do
  _ ← char '['
  let items ← optional do
    let items ← separated ',' (gap *> value <* gap)
    _ ← optional (char ',')
    return items
  gap
  _ ← char ']'
  return .array (items.getD [])

/-- A table on one line. No comma follows the last pair. -/
def inlineTable (value : Parser Value) : Parser Value := do
  _ ← char '\x7b'
  let pairs ← optional (separated ',' (pair value <* space))
  space
  _ ← char '\x7d'
  match Entries.insertAll [] (pairs.getD []) with
  | some entries => return .table (toEntries entries)
  | none => failure

/-- A value in which so many more may stand inside one another. -/
def value : Nat → Parser Value
  | 0 => scalar
  | depth + 1 => array (value depth) <|> inlineTable (value depth) <|> scalar

/-- The keys and values that stand under one header. -/
structure Section where
  repeated : Bool
  path : List String
  name : String
  pairs : List (List String × String × Value)

def lineEnd : Parser Unit := do
  space
  _ ← optional comment
  (do _ ← newline) <|> atEnd

/-- Lines with a comment or nothing on them, and the blanks before the next line's first
character. -/
def emptyLines : Parser Unit := do
  space
  _ ← many ((do _ ← newline; space) <|> (do comment; (do _ ← newline) <|> atEnd; space))

def pairLine : Parser (List String × String × Value) :=
  pair (value (nestingLimit - 1)) <* lineEnd <* emptyLines

def header : Parser (Bool × List String × String) := do
  _ ← char '['
  let second ← optional (char '[')
  let name ← key
  _ ← char ']'
  if second.isSome then _ ← char ']'
  lineEnd
  emptyLines
  return (second.isSome, name)

def headedSection : Parser Section := do
  let (repeated, path, name) ← header
  return ⟨repeated, path, name, ← many pairLine⟩

/-- The pairs before the first header, and the sections. -/
def sections : Parser (List (List String × String × Value) × List Section) := do
  _ ← optional (char '\ufeff')
  emptyLines
  let pairs ← many pairLine
  let sections ← many headedSection
  atEnd
  return (pairs, sections)

namespace Section

/-- Adds the section to the table that holds it. A table has one header. If longer headers have
passed through it before, its own one moves it behind all that stands there. -/
def addTo (part : Section) (_ : Origin) (entries : Entries) : Option Entries :=
  match part.repeated, entries.lookup part.name with
  | false, none => do
    let below ← Entries.insertAll [] part.pairs
    return entries ++ [(part.name, .table .header below)]
  | false, some (.table .path below) => do
    let below ← Entries.insertAll below part.pairs
    return entries.remove part.name ++ [(part.name, .table .header below)]
  | true, none => do
    let last ← Entries.insertAll [] part.pairs
    return entries ++ [(part.name, .tables [] last)]
  | true, some (.tables earlier last) => do
    let next ← Entries.insertAll [] part.pairs
    return entries.set part.name (.tables (earlier ++ [last]) next)
  | _, _ => none

end Section

/-- The table that a document describes, or none if the document is not well-formed. -/
def parse (text : String) : Option (List (String × Value)) := do
  let ((pairs, sections), _) ← sections text.toList
  let entries ← Entries.insertAll [] pairs
  let entries ← sections.foldlM
    (fun entries part => Entries.change .path part.addTo part.path .header entries) entries
  return toEntries entries

end Clickstream.Toml

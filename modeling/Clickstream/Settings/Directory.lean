namespace Clickstream

/-- A directory, as it was written. -/
structure Directory where
  text : String
  deriving DecidableEq, Repr

namespace Directory

/-- The parts between separators, of which there is one more than separators. -/
def parts : List Char → List (List Char)
  | [] => [[]]
  | '/' :: rest => [] :: parts rest
  | c :: rest =>
    match parts rest with
    | [] => [[c]]
    | part :: others => (c :: part) :: others

/-- Empty parts and single dots lead nowhere. -/
def steps (parts : List (List Char)) : List (List Char) :=
  parts.filter fun part => part ≠ [] ∧ part ≠ ['.']

/-- Whether the path starts at the root, and where it goes from there. A single dot counts only
at the start of a path that has no root. -/
def route (directory : Directory) : Bool × List (List Char) :=
  match directory.text.toList with
  | '/' :: rest => (true, steps (parts rest))
  | text =>
    match parts text with
    | ['.'] :: rest => (false, ['.'] :: steps rest)
    | parts => (false, steps parts)

/-- Two spellings of one path are the same. -/
def same (a b : Directory) : Bool := a.route == b.route

end Directory

end Clickstream

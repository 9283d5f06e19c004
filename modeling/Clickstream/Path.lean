namespace Clickstream

/-- One step down in a schema or a value. A schema has one node below an array or a map,
a value has one per position or key. -/
inductive Segment where
  | field (name : String)
  | index (position : Nat)
  | key (name : String)
  | branch (position : Nat)
  | item
  | entry
  deriving DecidableEq, Repr

namespace Segment

/-- Names and keys are written as they are, so two different segments may read alike. -/
def text : Segment → String
  | .field name => "." ++ name
  | .index position => s!"[{position}]"
  | .key name => "[\"" ++ name ++ "\"]"
  | .branch position => s!"<{position}>"
  | .item => "[]"
  | .entry => "\x7b\x7d"

end Segment

/-- The steps from the root, outermost first. -/
abbrev Path := List Segment

def Path.text (path : Path) : String :=
  path.foldl (fun text segment => text ++ segment.text) "$"

/-- A cause and the node at which it was found. -/
structure Located (α : Type) where
  path : Path
  cause : α
  deriving DecidableEq, Repr

namespace Located

def here {α : Type} (cause : α) : Located α := ⟨[], cause⟩

/-- The same cause seen from one node further up. -/
def within {α : Type} (segment : Segment) (fault : Located α) : Located α :=
  ⟨segment :: fault.path, fault.cause⟩

/-- The outcome of looking into a node, seen from one node further up. -/
def under {α β : Type} (segment : Segment) (outcome : Except (Located α) β) :
    Except (Located α) β :=
  outcome.mapError (within segment)

end Located

end Clickstream

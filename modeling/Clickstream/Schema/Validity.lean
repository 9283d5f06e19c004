import Clickstream.Path
import Clickstream.Schema

namespace Clickstream

/-- Why a schema is refused. -/
inductive SchemaFlaw where
  | unnamed (kind : Kind)
  | noBranches
  | nestedUnion (branch : Nat)
  | noSymbols (enum : String)
  | repeatedSymbol (enum symbol : String)
  | unnamedField (record : String)
  | repeatedField (record field : String)
  | notRecord (found : Kind)
  deriving DecidableEq, Repr

namespace SchemaFlaw

def text : SchemaFlaw → String
  | .unnamed kind => s!"{kind.name} name is empty"
  | .noBranches => "union has no branches"
  | .nestedUnion branch => s!"union branch {branch} is itself a union"
  | .noSymbols enum => s!"enum `{enum}` declares no symbols"
  | .repeatedSymbol enum symbol => s!"enum `{enum}` repeats symbol `{symbol}`"
  | .unnamedField record => s!"record `{record}` has a field without a name"
  | .repeatedField record field => s!"record `{record}` repeats field `{field}`"
  | .notRecord found => s!"top-level schema must be a record, found {found.name}"

end SchemaFlaw

/-- The first name of the list that stands earlier in it or among those `seen` before it. -/
def firstRepeat? (seen : List String) : List String → Option String
  | [] => none
  | name :: rest => if name ∈ seen then some name else firstRepeat? (name :: seen) rest

namespace Schema

/-- The outcome of checking a schema: its first flaw, depth first and from left to right. -/
abbrev Check := Except (Located SchemaFlaw) Unit

def refuse (flaw : SchemaFlaw) : Check := .error (.here flaw)

def refuseIf (bad : Prop) [Decidable bad] (flaw : SchemaFlaw) : Check :=
  if bad then refuse flaw else .ok ()

def checkSymbols (name : String) (symbols : List String) : Check :=
  match firstRepeat? [] symbols with
  | some symbol => refuse (.repeatedSymbol name symbol)
  | none => .ok ()

mutual

def validate : Schema → Check
  | array item => Located.under .item (validate item)
  | map value => Located.under .entry (validate value)
  | union branches => do
    refuseIf (branches.length = 0) .noBranches
    validateBranches 0 branches
  | enum name symbols => do
    refuseIf (name = "") (.unnamed .enum)
    refuseIf (symbols = []) (.noSymbols name)
    checkSymbols name symbols
  | fixed name _ => refuseIf (name = "") (.unnamed .fixed)
  | record name fields => do
    refuseIf (name = "") (.unnamed .record)
    validateFields name [] fields
  | _ => .ok ()

/-- A branch is checked to be no union before it is looked into. -/
def validateBranches (position : Nat) : List Schema → Check
  | [] => .ok ()
  | branch :: rest => do
    refuseIf (branch.kind = .union) (.nestedUnion position)
    Located.under (.branch position) (validate branch)
    validateBranches (position + 1) rest

/-- A field's name is checked against those `seen` before it, then its schema is looked into. -/
def validateFields (record : String) (seen : List String) : List (String × Schema) → Check
  | [] => .ok ()
  | (name, schema) :: rest => do
    refuseIf (name = "") (.unnamedField record)
    refuseIf (name ∈ seen) (.repeatedField record name)
    Located.under (.field name) (validate schema)
    validateFields record (name :: seen) rest

end

end Schema

end Clickstream

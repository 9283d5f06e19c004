import Clickstream.Toml.Value

namespace Clickstream.Toml

/-- How a table came to be: by its own header, by a longer header that passes through it, or by a
dotted key. This decides what may be added to it later. -/
inductive Origin where
  | header
  | path
  | dotted
  deriving DecidableEq, Repr

/-- A table under construction. What is written as a value cannot be added to; of an array of
tables only the last one can. -/
inductive Tree where
  | value (value : Value)
  | table (origin : Origin) (entries : List (String × Tree))
  | tables (earlier : List (List (String × Tree))) (last : List (String × Tree))

/-- The entries of a table, in the order of their writing. -/
abbrev Entries := List (String × Tree)

namespace Entries

def set (entries : Entries) (key : String) (tree : Tree) : Entries :=
  entries.map fun (name, old) => if name = key then (name, tree) else (name, old)

def remove (entries : Entries) (key : String) : Entries :=
  entries.filter fun (name, _) => name ≠ key

/-- Changes the table at the end of a path, and creates those on the way that are not there. A
path of dotted keys does not pass through a table that has a header. -/
def change (created : Origin) (act : Origin → Entries → Option Entries) :
    List String → Origin → Entries → Option Entries
  | [], origin, entries => act origin entries
  | key :: path, _, entries =>
    match entries.lookup key with
    | none =>
      (change created act path created []).map fun below => entries ++ [(key, .table created below)]
    | some (.value _) => none
    | some (.table origin below) =>
      if created = .dotted ∧ origin = .header then none
      else (change created act path origin below).map fun below =>
        set entries key (.table origin below)
    | some (.tables earlier last) =>
      (change created act path .header last).map fun last => set entries key (.tables earlier last)

/-- Adds one key and its value. The last table on a dotted path has to be one that dotted keys
have made, and a key is given once. -/
def insert (entries : Entries) (path : List String) (key : String) (value : Value) :
    Option Entries :=
  let add (origin : Origin) (entries : Entries) : Option Entries :=
    if path ≠ [] ∧ origin ≠ .dotted then none
    else if (entries.lookup key).isSome then none
    else some (entries ++ [(key, .value value)])
  change .dotted add path .header entries

/-- Adds keys with their paths and values, in order. -/
def insertAll (entries : Entries) (pairs : List (List String × String × Value)) : Option Entries :=
  pairs.foldlM (fun entries (path, key, value) => entries.insert path key value) entries

end Entries

mutual

def Tree.toValue : Tree → Value
  | .value value => value
  | .table _ entries => .table (toEntries entries)
  | .tables earlier last => .array (toTables earlier ++ [.table (toEntries last)])

def toEntries : List (String × Tree) → List (String × Value)
  | [] => []
  | (key, tree) :: rest => (key, tree.toValue) :: toEntries rest

def toTables : List (List (String × Tree)) → List Value
  | [] => []
  | entries :: rest => .table (toEntries entries) :: toTables rest

end

end Clickstream.Toml

import Clickstream.Settings

/-! What a document means: what each value stands for, and what the settings of a table are. None
of this goes through a table in its order. -/

namespace Clickstream

open Toml (Value Distinct)

namespace Settings

/-- A text as it is read, or a number of milliseconds. -/
inductive IsDuration : Value → Duration → Prop
  | text {text : String} {duration : Duration} (read : Duration.parse text = .ok duration) :
      IsDuration (.string text) duration
  | millis {n : Int64} {duration : Duration} (positive : 0 ≤ n.toInt)
      (same : duration.nanos = n.toInt.toNat * 1_000_000) : IsDuration (.integer n) duration

inductive IsCount : Value → Nat → Prop
  | integer {n : Int64} {count : Nat} (same : n.toInt = count) (small : count < 0x1_0000_0000) :
      IsCount (.integer n) count

inductive IsDirectory : Value → Directory → Prop
  | string (text : String) : IsDirectory (.string text) ⟨text⟩

inductive IsText : Value → String → Prop
  | string (text : String) : IsText (.string text) text

inductive IsFlag : Value → Bool → Prop
  | boolean (flag : Bool) : IsFlag (.boolean flag) flag

/-- What is relied on when values are read. A number that has no sign may be handed to a visitor in
either form. -/
structure Library.Lawful (library : Library) : Prop where
  parse_keyed {text : String} {entries : List (String × Value)}
    (parsed : library.parse text = some entries) : (Value.table entries).Keyed
  count_ok_iff {value : Value} {count : Nat} : library.count value = .ok count ↔ IsCount value count
  directory_ok_iff {value : Value} {directory : Directory} :
    library.directory value = .ok directory ↔ IsDirectory value directory
  text_ok_iff {value : Value} {text : String} : library.text value = .ok text ↔ IsText value text
  flag_ok_iff {value : Value} {flag : Bool} : library.flag value = .ok flag ↔ IsFlag value flag
  visit_string {α : Type} (visitor : Visitor α) (text : String) :
    library.visit visitor (.string text) = visitor.string text
  visit_integer {α : Type} (visitor : Visitor α) (n : Int64) :
    library.visit visitor (.integer n) = visitor.signed n ∨
      0 ≤ n.toInt ∧ library.visit visitor (.integer n) = visitor.unsigned n.toUInt64
  visit_other {α : Type} {visitor : Visitor α} {value : Value} {a : α}
    (done : library.visit visitor value = .ok a) :
    (∃ text, value = .string text) ∨ ∃ n, value = .integer n
  group_empty {α : Type} (group : Group α) : library.group group (.table []) = .ok group.defaults
  group_field {α : Type} {group : Group α} {field : Field α} {entries : List (String × Value)}
    {value : Value} (mem : field ∈ group.fields)
    (distinct : Distinct (entries ++ [(field.key, value)])) :
    library.group group (.table (entries ++ [(field.key, value)])) =
      do field.set (← library.group group (.table entries)) value
  group_unknown {α : Type} {group : Group α} {key : String} {entries : List (String × Value)}
    {value : Value} (unknown : ∀ field ∈ group.fields, field.key ≠ key)
    (distinct : Distinct (entries ++ [(key, value)])) :
    library.group group (.table (entries ++ [(key, value)])) =
      library.group group (.table entries)

variable {β : Type}

/-- A setting that is given has the value that is meant, any other has its default. -/
def Given (means : Value → β → Prop) : Option Value → β → β → Prop
  | none, standard, b => b = standard
  | some value, _, b => means value b

/-- If a setting is given at all, something is meant. -/
def Suits (means : Value → β → Prop) (given : Option Value) : Prop :=
  ∀ value ∈ given, ∃ b, means value b

end Settings

open Settings

def FileStrategy.keys : List String :=
  ["roll_every", "sync_file_after_records", "sync_file_after_duration", "working_dir",
    "publish_dir"]

/-- Each setting has a value of its type, if it has one. -/
structure FileStrategy.WellTyped (entries : List (String × Value)) : Prop where
  rollEvery : Suits IsDuration (entries.lookup "roll_every")
  syncAfterRecords : Suits IsCount (entries.lookup "sync_file_after_records")
  syncAfterDuration : Suits IsDuration (entries.lookup "sync_file_after_duration")
  workingDir : Suits IsDirectory (entries.lookup "working_dir")
  publishDir : Suits IsDirectory (entries.lookup "publish_dir")

structure FileStrategy.Describes (entries : List (String × Value)) (s : FileStrategy) : Prop where
  rollEvery : Given IsDuration (entries.lookup "roll_every") standard.rollEvery s.rollEvery
  syncAfterRecords : Given IsCount (entries.lookup "sync_file_after_records")
    standard.syncAfterRecords s.syncAfterRecords
  syncAfterDuration : Given IsDuration (entries.lookup "sync_file_after_duration")
    standard.syncAfterDuration s.syncAfterDuration
  workingDir : Given IsDirectory (entries.lookup "working_dir") standard.workingDir s.workingDir
  publishDir : Given IsDirectory (entries.lookup "publish_dir") standard.publishDir s.publishDir

def Script.keys : List String := ["name", "logging", "debug", "auto_page_view_event"]

structure Script.WellTyped (entries : List (String × Value)) : Prop where
  name : Suits IsText (entries.lookup "name")
  logging : Suits IsFlag (entries.lookup "logging")
  debug : Suits IsFlag (entries.lookup "debug")
  autoPageViewEvent : Suits IsFlag (entries.lookup "auto_page_view_event")

structure Script.Describes (entries : List (String × Value)) (s : Script) : Prop where
  name : Given IsText (entries.lookup "name") standard.name s.name
  logging : Given IsFlag (entries.lookup "logging") standard.logging s.logging
  debug : Given IsFlag (entries.lookup "debug") standard.debug s.debug
  autoPageViewEvent : Given IsFlag (entries.lookup "auto_page_view_event")
    standard.autoPageViewEvent s.autoPageViewEvent

/-- The name that a script has in the end. -/
def Script.nameIn (entries : List (String × Value)) : String :=
  match entries.lookup "name" with
  | some (.string name) => name
  | _ => standard.name

/-- A letter or a digit of ASCII, an underscore or a hyphen. -/
def Script.IsPlain (c : Char) : Prop :=
  'A' ≤ c ∧ c ≤ 'Z' ∨ 'a' ≤ c ∧ c ≤ 'z' ∨ '0' ≤ c ∧ c ≤ '9' ∨ c = '_' ∨ c = '-'

/-- One or more plain characters, and the ending. -/
def Script.IsFile (name : String) : Prop :=
  ∃ stem, stem ≠ [] ∧ (∀ c ∈ stem, IsPlain c) ∧ name.toList = stem ++ ['.', 'j', 's']

namespace Settings

/-- The sections and the keys that are known in each. -/
def sections : List (String × List String) :=
  [("file_strategy", FileStrategy.keys), ("javascript", Script.keys)]

/-- A section is a table, if it is there. -/
def Sectioned (entries : List (String × Value)) : Prop :=
  ∀ named ∈ sections, ∀ value ∈ entries.lookup named.1, ∃ below, value = .table below

/-- The entries of a section, which may be left out. -/
def below (entries : List (String × Value)) (name : String) : List (String × Value) :=
  match entries.lookup name with
  | some (.table below) => below
  | _ => []

structure WellTyped (entries : List (String × Value)) : Prop where
  fileStrategy : FileStrategy.WellTyped (below entries "file_strategy")
  script : Script.WellTyped (below entries "javascript")

structure Describes (entries : List (String × Value)) (s : Settings) : Prop where
  fileStrategy : s.fileStrategy.Describes (below entries "file_strategy")
  script : s.script.Describes (below entries "javascript")

/-- The entries with some of the keys. -/
def withKeys (keys : List String) : Value → Value
  | .table entries => .table (entries.filter fun entry => entry.1 ∈ keys)
  | other => other

/-- The entries without unknown sections, and without unknown keys in those that are known. -/
def known (entries : List (String × Value)) : List (String × Value) :=
  entries.filterMap fun (name, value) =>
    (sections.lookup name).map fun keys => (name, withKeys keys value)

end Settings

end Clickstream

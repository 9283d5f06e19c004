import Clickstream.Decimal
import Clickstream.Duration
import Clickstream.Settings.Directory
import Clickstream.Text.Quoted
import Clickstream.Toml.Value

namespace Clickstream

/-- What a setting should have been. -/
inductive Wanted where
  | duration
  | count
  | directory
  | string
  | flag
  | group (name : String)
  deriving DecidableEq, Repr

def Wanted.text : Wanted → String
  | .duration => "a duration such as \"30 seconds\" or an integer of milliseconds"
  | .count => "u32"
  | .directory => "path string"
  | .string => "a string"
  | .flag => "a boolean"
  | .group name => s!"struct {name}"

/-- Why a value cannot be a setting. -/
inductive SettingFault where
  | wrongType (found : Toml.Value) (wanted : Wanted)
  | outOfRange (found : Int64) (wanted : Wanted)
  | negativeDuration (millis : Int64)
  | duration (error : DurationError)

namespace SettingFault

/-- Tables, dates and times are all told as maps. -/
def describe : Toml.Value → String
  | .string text => s!"string {Text.quote text}"
  | .integer n => s!"integer `{n.toInt}`"
  | .float bits => s!"floating point `{Decimal.text bits}`"
  | .boolean flag => s!"boolean `{flag}`"
  | .array _ => "sequence"
  | .dateTime | .table _ => "map"

def message : SettingFault → String
  | .wrongType found wanted => s!"invalid type: {describe found}, expected {wanted.text}"
  | .outOfRange found wanted => s!"invalid value: integer `{found.toInt}`, expected {wanted.text}"
  | .negativeDuration millis => s!"duration must not be negative, got {millis.toInt}"
  | .duration error => error.message

end SettingFault

namespace Settings

open Toml (Value)

/-- What is made of a value whose type only the document tells. -/
structure Visitor (α : Type) where
  wanted : Wanted
  string : String → Except SettingFault α
  signed : Int64 → Except SettingFault α
  unsigned : UInt64 → Except SettingFault α

theorem millis_lt (n : Int64) : n.toNatClampNeg < wordLimit :=
  Nat.lt_trans n.toNatClampNeg_lt (by decide)

/-- A text with a unit, or a number of milliseconds. -/
def durationVisitor : Visitor Duration where
  wanted := .duration
  string text := (Duration.parse text).mapError .duration
  signed n :=
    if n < 0 then .error (.negativeDuration n) else .ok (.ofMillis n.toNatClampNeg (millis_lt n))
  unsigned n := .ok (.ofMillis n.toNat n.toNat_lt)

/-- A key of a group, what is made of its value, and where that goes. -/
structure Field (α : Type) where
  β : Type
  key : String
  read : Value → Except SettingFault β
  put : α → β → α

def Field.set {α : Type} (field : Field α) (settings : α) (value : Value) :
    Except SettingFault α :=
  (field.read value).map (field.put settings)

/-- Settings that stand together, with their defaults. -/
structure Group (α : Type) where
  name : String
  defaults : α
  fields : List (Field α)
  distinct : (fields.map Field.key).Nodup := by simp

/-- What one entry does. Keys that are not the group's are passed over. -/
def Group.setKey {α : Type} (group : Group α) (settings : α) (entry : String × Value) :
    Except SettingFault α :=
  match group.fields.find? fun field => field.key = entry.1 with
  | some field => field.set settings entry.2
  | none => .ok settings

/-- What settings are read with: a parser of documents, and what takes the values of a document
apart. A count is one of 32 bits. -/
structure Library where
  parse (text : String) : Option (List (String × Value))
  count (value : Value) : Except SettingFault Nat
  directory (value : Value) : Except SettingFault Directory
  text (value : Value) : Except SettingFault String
  flag (value : Value) : Except SettingFault Bool
  visit {α : Type} (visitor : Visitor α) (value : Value) : Except SettingFault α
  group {α : Type} (group : Group α) (value : Value) : Except SettingFault α

def Library.duration (library : Library) (value : Value) : Except SettingFault Duration :=
  library.visit durationVisitor value

end Settings

end Clickstream

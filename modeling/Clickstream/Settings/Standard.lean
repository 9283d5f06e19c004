import Clickstream.Settings.Field
import Clickstream.Toml.Document

namespace Clickstream.Settings

open Toml (Value)

/-- Counts are held in 32 bits. -/
def readCount : Value → Except SettingFault Nat
  | .integer n =>
    if 0 ≤ n.toInt ∧ n.toInt < 0x1_0000_0000 then .ok n.toNatClampNeg
    else .error (.outOfRange n .count)
  | found => .error (.wrongType found .count)

def readDirectory : Value → Except SettingFault Directory
  | .string text => .ok ⟨text⟩
  | found => .error (.wrongType found .directory)

def readText : Value → Except SettingFault String
  | .string text => .ok text
  | found => .error (.wrongType found .string)

def readFlag : Value → Except SettingFault Bool
  | .boolean flag => .ok flag
  | found => .error (.wrongType found .flag)

variable {α : Type}

/-- All numbers of a document have a sign. -/
def Visitor.read (visitor : Visitor α) : Value → Except SettingFault α
  | .string text => visitor.string text
  | .integer n => visitor.signed n
  | found => .error (.wrongType found visitor.wanted)

/-- The group's settings, the defaults for those that are absent. The first fault in the order of
writing is the one that counts. A group may also be written as an array, with the values of its
fields in their order; what is left over is passed over. A date has no keys of a group. -/
def Group.read (group : Group α) : Value → Except SettingFault α
  | .table entries => entries.foldlM group.setKey group.defaults
  | .array items =>
    (group.fields.zip items).foldlM (fun settings (field, value) => field.set settings value)
      group.defaults
  | .dateTime => .ok group.defaults
  | found => .error (.wrongType found (.group group.name))

/-- What the collector runs with. -/
def Library.standard : Library where
  parse := Toml.parse
  count := readCount
  directory := readDirectory
  text := readText
  flag := readFlag
  visit := Visitor.read
  group := Group.read

end Clickstream.Settings

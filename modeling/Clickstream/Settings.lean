import Clickstream.Basic
import Clickstream.Settings.FileStrategy
import Clickstream.Settings.Script
import Clickstream.Settings.Standard

namespace Clickstream

/-- All that a collector can be told. -/
structure Settings where
  fileStrategy : FileStrategy
  script : Script
  deriving DecidableEq

/-- Why settings are refused. -/
inductive SettingsError where
  | malformed
  | setting (fault : SettingFault)
  | scriptName (name : String)

namespace SettingsError

/-- A stable name for logs. -/
def code : SettingsError → String
  | .malformed | .setting _ => "config.parse"
  | .scriptName _ => "config.invalid"

/-- What is wrong. Of a document that is not well-formed only that is told. -/
def message? : SettingsError → Option String
  | .malformed => none
  | .setting fault => some fault.message
  | .scriptName name =>
    some (s!"invalid value for `javascript.name`: `{name}` must be a file name " ++
      "made of letters, digits, `_` or `-` ending in `.js`")

end SettingsError

inductive SettingsEvent where
  | loaded (summary : String)
  | rejected (code : String)
  deriving DecidableEq, Repr

namespace SettingsEvent

def level : SettingsEvent → Level
  | .loaded _ => .info
  | .rejected _ => .warn

def message : SettingsEvent → String
  | .loaded _ => "collector configuration loaded"
  | .rejected _ => "collector configuration rejected"

end SettingsEvent

namespace Settings

def standard : Settings := ⟨.standard, .standard⟩

def summary (s : Settings) : String :=
  s!"CollectorConfig \x7b file_strategy: {s.fileStrategy.summary}, " ++
    s!"javascript: {s.script.summary} \x7d"

def same (a b : Settings) : Bool := a.fileStrategy.same b.fileStrategy && a.script == b.script

def validate (s : Settings) : Except SettingsError Unit :=
  if Script.isFileName s.script.name then .ok () else .error (.scriptName s.script.name)

namespace Library

variable (library : Library)

def settings : Group Settings where
  name := "CollectorConfig"
  defaults := Settings.standard
  fields := [
    ⟨FileStrategy, "file_strategy", library.group library.fileStrategy,
      fun s b => { s with fileStrategy := b }⟩,
    ⟨Script, "javascript", library.group library.script, fun s b => { s with script := b }⟩]

/-- Reads a document as one group of settings. -/
def readGroup {α : Type} (group : Group α) (text : String) : Except SettingsError α :=
  match library.parse text with
  | none => .error .malformed
  | some entries => (library.group group (.table entries)).mapError .setting

/-- The settings of a document. The script's name is looked at last. -/
def ofText (text : String) : Except SettingsError Settings := do
  let settings ← library.readGroup library.settings text
  settings.validate
  return settings

/-- Reads settings and tells the log about it. -/
def load (text : String) : Except SettingsError Settings × List SettingsEvent :=
  match library.ofText text with
  | .ok settings => (.ok settings, [.loaded settings.summary])
  | .error error => (.error error, [.rejected error.code])

end Library

/-! As the collector does it. -/

def readGroup {α : Type} : Group α → String → Except SettingsError α := Library.standard.readGroup

def load : String → Except SettingsError Settings × List SettingsEvent := Library.standard.load

end Settings

def FileStrategy.group : Settings.Group FileStrategy := Settings.Library.standard.fileStrategy

def Script.group : Settings.Group Script := Settings.Library.standard.script

end Clickstream

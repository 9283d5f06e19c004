import Clickstream.Settings.Field

namespace Clickstream

/-- The script that browsers load to report what their users do. -/
structure Script where
  name : String
  logging : Bool
  debug : Bool
  autoPageViewEvent : Bool
  deriving DecidableEq, Repr

namespace Script

def standard : Script where
  name := "divolte.js"
  logging := false
  debug := false
  autoPageViewEvent := true

def summary (s : Script) : String :=
  s!"JavascriptConfig \x7b name: {s.name}, logging: {s.logging}, debug: {s.debug}, " ++
    s!"auto_page_view_event: {s.autoPageViewEvent} \x7d"

/-- A letter or a digit of ASCII, an underscore or a hyphen. -/
def isNameChar (c : Char) : Bool := c.isAlphanum || c == '_' || c == '-'

/-- The name becomes part of a public address, so it must be one file name and nothing more: a
stem of plain characters, and the ending. -/
def isFileName (name : String) : Bool :=
  let (ending, stem) := (name.toList.reverse.take 3, name.toList.reverse.drop 3)
  ending == ['s', 'j', '.'] && !stem.isEmpty && stem.all isNameChar

end Script

def Settings.Library.script (library : Library) : Group Script where
  name := "JavascriptConfig"
  defaults := .standard
  fields := [
    ⟨String, "name", library.text, fun s b => { s with name := b }⟩,
    ⟨Bool, "logging", library.flag, fun s b => { s with logging := b }⟩,
    ⟨Bool, "debug", library.flag, fun s b => { s with debug := b }⟩,
    ⟨Bool, "auto_page_view_event", library.flag, fun s b => { s with autoPageViewEvent := b }⟩]

end Clickstream

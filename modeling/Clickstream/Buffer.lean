import Clickstream.Wire.Read

namespace Clickstream

/-- Names the stream or partition that a record belongs to. Any text will do, also the empty one. -/
structure Owner where
  name : String
  deriving DecidableEq, Repr

namespace Owner

/-- Owners are ordered as their names are: by code point, which is the order of the UTF-8 bytes. -/
def sort (owners : List Owner) : List Owner :=
  owners.mergeSort fun a b => !decide (b.name < a.name)

/-- Each owner once, in the order of the first time it is named. -/
def distinct (owners : List Owner) : List Owner := owners.eraseDups

end Owner

/-- A reader's own place in a buffer. `length` is that of the whole buffer. -/
structure View where
  unread : List UInt8
  length : Nat
  deriving DecidableEq, Repr

namespace View

def position (view : View) : Nat := view.length - view.unread.length

def remaining (view : View) : Nat := view.unread.length

def isEmpty (view : View) : Bool := view.length == 0

/-- Skips bytes. There is no result if fewer are left. -/
def advance? (view : View) (count : Nat) : Option View :=
  if Wire.shorterThan view.unread count then none
  else some { view with unread := view.unread.drop count }

def take? (view : View) (count : Nat) : Option (List UInt8 × View) :=
  (view.advance? count).map fun rest => (view.unread.take count, rest)

def next? (view : View) : Option (UInt8 × View) :=
  match view.unread with
  | [] => none
  | byte :: rest => some (byte, { view with unread := rest })

/-- Reads a value at the view's place. The view moves over what was read, also by a failure. -/
def read (view : View) (schema : Schema) : Except (Located Corruption) Value × View :=
  match Wire.read schema view.unread with
  | .ok value rest => (.ok value, { view with unread := rest })
  | .error corruption rest => (.error corruption, { view with unread := rest })

end View

/-- The encoding of one record. -/
structure Buffer where
  owner : Owner
  bytes : List UInt8
  deriving DecidableEq, Repr

namespace Buffer

def size (buffer : Buffer) : Nat := buffer.bytes.length

/-- A new view, at the front. -/
def view (buffer : Buffer) : View := ⟨buffer.bytes, buffer.size⟩

end Buffer

end Clickstream

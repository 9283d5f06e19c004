import Clickstream.Basic
import Clickstream.Path
import Clickstream.Schema
import Clickstream.Text.Utf8
import Clickstream.Value

/-! Values as bytes: the writer and the reader, each over an interface of what it asks for. -/

namespace Clickstream

namespace LittleEndian

/-- The lowest `count` digits of a number in base 256, lowest first. -/
def encode : Nat → Nat → List UInt8
  | 0, _ => []
  | count + 1, n => .ofNat n :: encode count (n / 256)

def decode (bytes : List UInt8) : Nat :=
  bytes.foldr (fun byte n => byte.toNat + 256 * n) 0

end LittleEndian

namespace Schema

mutual

/-- No value of the schema is written in fewer bytes. -/
def minWidth : Schema → Nat
  | null => 0
  | boolean | int | long | bytes | string => 1
  | array _ | map _ | union _ | enum _ _ => 1
  | float => 4
  | double => 8
  | fixed _ size => size
  | record _ fields => fieldsWidth 0 fields

def fieldsWidth (before : Nat) : List (String × Schema) → Nat
  | [] => before
  | (_, schema) :: rest => fieldsWidth (Size.add before (minWidth schema)) rest

end

end Schema

/-- How a value fails to fit the schema at one node. -/
inductive Mismatch where
  | kind (schema value : Kind)
  | branch (count : Nat) (branch : UInt32)
  | symbol (enum : String) (count : Nat) (symbol : UInt32)
  | size (fixed : String) (size length : Nat)
  | arity (record : String) (fields values : Nat)
  deriving DecidableEq, Repr

namespace Mismatch

def expected : Mismatch → String
  | .kind schema _ => schema.name
  | .branch count _ => s!"union branch below {count}"
  | .symbol enum count _ => s!"symbol of enum `{enum}` (0..{count})"
  | .size fixed bytes _ => s!"fixed `{fixed}` of {bytes} bytes"
  | .arity record fields _ => s!"{fields} fields of record `{record}`"

def found : Mismatch → String
  | .kind _ value => value.name
  | .branch _ position => s!"branch {position.toNat}"
  | .symbol _ _ position => s!"symbol index {position.toNat}"
  | .size _ _ length => s!"{length} bytes"
  | .arity _ _ values => s!"{values} values"

end Mismatch

/-- What an index on the wire points at. -/
inductive Indexed where
  | branch
  | symbol
  deriving DecidableEq, Repr

def Indexed.text : Indexed → String
  | branch => "union branch"
  | symbol => "enum symbol"

/-- Items that take no bytes are not bounded by the input, so their number is. -/
def zeroWidthLimit : Nat := 0x1_0000

/-- Why bytes are not the encoding of a value. -/
inductive Corruption where
  | truncated (required available : Nat)
  | boolean (byte : UInt8)
  | intRange (n : Int64)
  | varintLength
  | negativeLength (length : Int64)
  | utf8 (fault : Utf8.Fault)
  | index (indexed : Indexed) (index : Int64) (count : Nat)
  | countRange
  | blockCount (count available : Nat)
  | zeroWidthItems
  deriving DecidableEq, Repr

namespace Corruption

/-- Two digits, in lower case. -/
def hex (byte : UInt8) : String :=
  String.ofList [Nat.digitChar (byte.toNat / 16), Nat.digitChar (byte.toNat % 16)]

def text : Corruption → String
  | .truncated required available =>
    s!"truncated input: {required} bytes required, {available} available"
  | .boolean byte => s!"invalid boolean byte 0x{hex byte}"
  | .intRange n => s!"int value {n.toInt} out of range"
  | .varintLength => "varint exceeds 64 bits"
  | .negativeLength length => s!"negative length {length.toInt}"
  | .utf8 fault => s!"string is not valid UTF-8: {fault.text}"
  | .index indexed n count => s!"{indexed.text} index {n.toInt} out of range 0..{count}"
  | .countRange => "block count overflow"
  | .blockCount count available =>
    s!"block count {count} exceeds remaining input of {available} bytes"
  | .zeroWidthItems => s!"collection of zero-width items exceeds {zeroWidthLimit} elements"

end Corruption

/-- What the writer asks for. -/
class Writes (m : Type → Type) where
  put (bytes : List UInt8) : m Unit
  refuse (mismatch : Mismatch) : m Unit
  within (segment : Segment) (step : m Unit) : m Unit
  /-- The code of a number. -/
  code (n : Int64) : m (List UInt8)
  /-- The position behind another one. -/
  next (position : Nat) : m Nat

/-- What the reader asks for. -/
class Reads (m : Type → Type) where
  refuse {α : Type} (corruption : Corruption) : m α
  within {α : Type} (segment : Segment) (step : m α) : m α
  /-- The number of bytes that are left, if there are fewer than this. -/
  fewer? (count : Nat) : m (Option Nat)
  /-- The next byte, if asked for only when there is one. -/
  byte : m UInt8
  /-- The next bytes, if asked for only when there are so many. -/
  copy (count : Nat) : m (List UInt8)
  /-- There is nothing at a position, of so many. -/
  absent {α : Type} (count position : Nat) : m α
  /-- A word shifted by an amount. -/
  shift (word : Nat → UInt64) (amount : Nat) : m UInt64
  /-- The sum of two words of 32 bits. -/
  add (left right : Nat) : m Nat
  negate (n : Int64) : m Int64
  /-- Takes turns until one has a result. -/
  loop {α β : Type} (turn : β → m (β ⊕ α)) (b : β) : m α

namespace Datum

variable {m : Type → Type} [Monad m] {α : Type}

section Writing

open Writes

variable [Writes m]

def writeLong (n : Int64) : m Unit := do
  let bytes ← code n
  put bytes

/-- A collection in memory is shorter than `2 ^ 63`. -/
def writeLength (length : Nat) : m Unit := writeLong (.ofNat length)

def writeBytes (data : List UInt8) : m Unit := do
  writeLength data.length
  put data

/-- Writes the items of a collection, if there are any, as one block after their number. A zero
count ends every collection. -/
def writeCollection (length : Nat) (items : m Unit) : m Unit :=
  if length = 0 then writeLong 0
  else do
    writeLength length
    items
    writeLong 0

mutual

/-- Writes a value under a schema. -/
def write : Schema → Value → m Unit
  | .null, .null => pure ()
  | .boolean, .boolean flag => put [if flag then 1 else 0]
  | .int, .int n => writeLong n.toInt64
  | .long, .long n => writeLong n
  | .float, .float bits => put (LittleEndian.encode 4 bits.toNat)
  | .double, .double bits => put (LittleEndian.encode 8 bits.toNat)
  | .bytes, .bytes data => writeBytes data
  | .string, .string text => writeBytes (Utf8.encode text)
  | .array item, .array items => writeCollection items.length (writeItems item 0 items)
  | .map schema, .map entries => writeCollection entries.length (writeEntries schema entries)
  | .union branches, .union branch value =>
    match branches[branch.toNat]? with
    | some schema => do
      writeLong branch.toUInt64.toInt64
      within (.branch branch.toNat) (write schema value)
    | none => refuse (.branch branches.length branch)
  | .enum name symbols, .enum symbol =>
    if symbols.length ≤ symbol.toNat then refuse (.symbol name symbols.length symbol)
    else writeLong symbol.toUInt64.toInt64
  | .fixed name size, .fixed data =>
    if data.length ≠ size then refuse (.size name size data.length) else put data
  | .record name fields, .record values =>
    if fields.length ≠ values.length then refuse (.arity name fields.length values.length)
    else writeFields fields values
  | schema, value => refuse (.kind schema.kind value.kind)
termination_by structural _ value => value

/-- The next position is counted before an item is written. -/
def writeItems (item : Schema) (position : Nat) : List Value → m Unit
  | [] => pure ()
  | value :: rest => do
    let behind ← next position
    within (.index position) (write item value)
    writeItems item behind rest
termination_by structural values => values

def writeEntries (schema : Schema) : List (String × Value) → m Unit
  | [] => pure ()
  | (key, value) :: rest => do
    writeBytes (Utf8.encode key)
    within (.key key) (write schema value)
    writeEntries schema rest
termination_by structural entries => entries

/-- Pairs fields and values up to the end of the shorter list. -/
def writeFields : List (String × Schema) → List Value → m Unit
  | (name, schema) :: fields, value :: values => do
    within (.field name) (write schema value)
    writeFields fields values
  | _, _ => pure ()
termination_by structural _ values => values

end

end Writing

section Reading

open Reads

variable [Reads m]

/-- Refuses to go on with fewer bytes than this. -/
def require (count : Nat) : m Unit := do
  match ← fewer? count with
  | some available => refuse (.truncated count available)
  | none => return ()

def readByte : m UInt8 := do
  require 1
  byte

def readBlock (count : Nat) : m (List UInt8) := do
  require count
  copy count

/-- Reads one group of seven bits and puts it above those that are read, by an amount. Only one bit
is left for the tenth group. -/
def readGroup : Nat × UInt64 → m ((Nat × UInt64) ⊕ UInt64)
  | (amount, code) => do
    let byte ← readByte
    if amount = 63 ∧ 1 < byte then refuse .varintLength
    else
      let group ← shift ((byte &&& 0x7f).toUInt64 <<< .ofNat ·) amount
      let code := code ||| group
      if byte < 0x80 then return .inr code
      else
        let amount ← add amount 7
        return .inl (amount, code)

def readLong : m Int64 := do
  let code ← loop readGroup (0, 0)
  let half ← shift (code >>> .ofNat ·) 1
  let sign ← negate (code &&& 1).toInt64
  return half.toInt64 ^^^ sign

def readBoolean : m Bool := do
  let byte ← readByte
  if byte = 0 then return false
  else if byte = 1 then return true
  else refuse (.boolean byte)

def readInt : m Int32 := do
  let n ← readLong
  if Int32.minValue.toInt ≤ n.toInt ∧ n.toInt ≤ Int32.maxValue.toInt then return n.toInt32
  else refuse (.intRange n)

def readLength : m Nat := do
  let length ← readLong
  if length < 0 then refuse (.negativeLength length) else return length.toNatClampNeg

def readBytes : m (List UInt8) := do
  let length ← readLength
  readBlock length

def readString : m String := do
  let bytes ← readBytes
  match Utf8.decode bytes with
  | .ok text => return text
  | .error fault => refuse (.utf8 fault)

/-- Reads the position of one among `count` things. -/
def readIndex (indexed : Indexed) (count : Nat) : m UInt32 := do
  let index ← readLong
  if 0 ≤ index.toInt ∧ index.toInt < 0x1_0000_0000 ∧ index.toInt < count then
    return .ofNat index.toNatClampNeg
  else refuse (.index indexed index count)

/-- Reads the number of items in the next block. A negative number is followed by the size of the
block in bytes, which is not needed to read it. -/
def readCount : m Nat := do
  let count ← readLong
  if 0 ≤ count then return count.toNatClampNeg
  else
    let _size ← readLong
    if count = Int64.minValue then refuse .countRange
    else
      let count ← negate count
      return count.toNatClampNeg

/-- Refuses a count of items that cannot be there, before any is read: too many for the bytes left,
or, if items take no bytes, too many together with those already `done`. -/
def checkCount (width done count : Nat) : m Unit :=
  if width = 0 then
    if zeroWidthLimit < Size.add done count then refuse .zeroWidthItems else pure ()
  else do
    match ← fewer? (Size.mul count width) with
    | some available => refuse (.blockCount count available)
    | none => return ()

/-- Reads so many items after those already `done`, of which each is told the number. -/
def readItems (item : Nat → m α) : Nat → Array α → m (Array α)
  | 0, done => pure done
  | count + 1, done => do
    let value ← item done.size
    readItems item count (done.push value)

/-- Reads one block, or the zero behind the last one. Items that take no bytes are counted over all
blocks. -/
def readTurn (width : Nat) (item : Nat → m α) :
    Nat × Array α → m ((Nat × Array α) ⊕ Array α)
  | (weightless, done) => do
    let count ← readCount
    if count = 0 then return .inr done
    else
      checkCount width weightless count
      let done ← readItems item count done
      return .inl (if width = 0 then Size.add weightless count else weightless, done)

def readCollection (width : Nat) (item : Nat → m α) : m (List α) := do
  let items ← loop (readTurn width item) (0, #[])
  return items.toList

mutual

/-- Reads one value of a schema from the front of what is left. -/
def read : Schema → m Value
  | .null => pure .null
  | .boolean => .boolean <$> readBoolean
  | .int => .int <$> readInt
  | .long => .long <$> readLong
  | .float => (.float <| .ofNat <| LittleEndian.decode ·) <$> readBlock 4
  | .double => (.double <| .ofNat <| LittleEndian.decode ·) <$> readBlock 8
  | .bytes => .bytes <$> readBytes
  | .string => .string <$> readString
  | .array item =>
    .array <$> readCollection item.minWidth fun position => within (.index position) (read item)
  | .map schema =>
    .map <$> readCollection (Size.add schema.minWidth 1) fun _ => do
      let key ← readString
      let value ← within (.key key) (read schema)
      return (key, value)
  | .union branches => do
    let position ← readIndex .branch branches.length
    .union position <$> within (.branch position.toNat)
      ((branch? branches position.toNat).getD (absent branches.length position.toNat))
  | .enum _ symbols => .enum <$> readIndex .symbol symbols.length
  | .fixed _ size => .fixed <$> readBlock size
  | .record _ fields => .record <$> readFields fields
termination_by structural schema => schema

/-- The reader of the branch at a position. -/
def branch? : List Schema → Nat → Option (m Value)
  | [], _ => none
  | schema :: _, 0 => some (read schema)
  | _ :: rest, position + 1 => branch? rest position
termination_by structural branches => branches

def readFields : List (String × Schema) → m (List Value)
  | [] => pure []
  | (name, schema) :: rest => do
    let value ← within (.field name) (read schema)
    let values ← readFields rest
    return value :: values
termination_by structural fields => fields

end

end Reading

end Datum

end Clickstream

import Clickstream.Datum

namespace Clickstream

namespace Wire

/-- Whether fewer than `count` bytes are left, found out by looking at no more than that. -/
def shorterThan : List UInt8 → Nat → Bool
  | _, 0 => false
  | [], _ + 1 => true
  | _ :: rest, count + 1 => shorterThan rest count

theorem shorterThan_iff (bytes : List UInt8) (count : Nat) :
    shorterThan bytes count = true ↔ bytes.length < count := by
  induction bytes generalizing count with
  | nil => cases count <;> simp [shorterThan]
  | cons _ rest ih => cases count <;> simp [shorterThan, ih]

end Wire

/-- A step of reading. What is left unread is there after a failure too. -/
abbrev Reader := EStateM (Located Corruption) (List UInt8)

namespace Reader

variable {α β : Type}

def refuse (corruption : Corruption) : Reader α := throw (.here corruption)

def within (segment : Segment) (step : Reader α) : Reader α := fun input =>
  match step input with
  | .ok value rest => .ok value rest
  | .error fault rest => .error (fault.within segment) rest

def fewer? (count : Nat) : Reader (Option Nat) := fun input =>
  .ok (if Wire.shorterThan input count then some input.length else none) input

def byte : Reader UInt8
  | [] => .error (.here (.truncated 1 0)) []
  | byte :: rest => .ok byte rest

def copy (count : Nat) : Reader (List UInt8) := fun input =>
  .ok (input.take count) (input.drop count)

/-- Takes turns, of which each takes a byte at least: so the bytes that are left at the start bound
their number. -/
def turns (turn : β → Reader (β ⊕ α)) : List UInt8 → β → Reader α
  | [], _ => refuse (.truncated 1 0)
  | _ :: bound, b => do
    match ← turn b with
    | .inl next => turns turn bound next
    | .inr value => return value

instance : Reads Reader where
  refuse := refuse
  within := within
  fewer? := fewer?
  byte := byte
  copy := copy
  -- An index is found in range before it is followed, so nobody comes here.
  absent count position := refuse (.index .branch (.ofNat position) count)
  shift word amount := pure (word amount)
  add left right := pure (left + right)
  negate n := pure (-n)
  loop turn b := fun input => turns turn input b input

end Reader

namespace Wire

/-- Reads one value of a schema from the front of the input. -/
abbrev read (schema : Schema) : Reader Value := Datum.read schema

abbrev readLong : Reader Int64 := Datum.readLong

abbrev checkCount (width done count : Nat) : Reader Unit := Datum.checkCount width done count

section

variable {count : Nat} {input : List UInt8}

theorem require_short (short : input.length < count) :
    (Datum.require count : Reader Unit) input =
      .error (.here (.truncated count input.length)) input := by
  have fewer : Reader.fewer? count input = .ok (some input.length) input := by
    rw [Reader.fewer?, if_pos ((shorterThan_iff input count).mpr short)]
  simp only [Datum.require, Bind.bind, EStateM.bind, Reads.fewer?, fewer]
  rfl

theorem require_enough (enough : count ≤ input.length) :
    (Datum.require count : Reader Unit) input = .ok () input := by
  have fewer : Reader.fewer? count input = .ok none input := by
    rw [Reader.fewer?, if_neg (mt (shorterThan_iff input count).mp (Nat.not_lt_of_le enough))]
  simp only [Datum.require, Bind.bind, EStateM.bind, Reads.fewer?, fewer]
  rfl

theorem readBlock_short (short : input.length < count) :
    (Datum.readBlock count : Reader (List UInt8)) input =
      .error (.here (.truncated count input.length)) input := by
  simp only [Datum.readBlock, Bind.bind, EStateM.bind, require_short short]

theorem readBlock_enough (enough : count ≤ input.length) :
    (Datum.readBlock count : Reader (List UInt8)) input =
      .ok (input.take count) (input.drop count) := by
  simp only [Datum.readBlock, Bind.bind, EStateM.bind, require_enough enough]
  rfl

end

theorem readByte_nil :
    (Datum.readByte : Reader UInt8) [] = .error (.here (.truncated 1 0)) [] := rfl

theorem readByte_cons (byte : UInt8) (rest : List UInt8) :
    (Datum.readByte : Reader UInt8) (byte :: rest) = .ok byte rest := by
  have enough : 1 ≤ (byte :: rest).length := Nat.le_add_left 1 rest.length
  simp only [Datum.readByte, Bind.bind, EStateM.bind, require_enough enough]
  rfl

/-- The number at which sums stop is far above the limit. -/
theorem checkCount_zero (done count : Nat) (input : List UInt8) :
    checkCount 0 done count input =
      if zeroWidthLimit < done + count then .error (.here .zeroWidthItems) input
      else .ok () input := by
  have sum : zeroWidthLimit < Size.add done count ↔ zeroWidthLimit < done + count := by
    simp only [Size.add, Size.largest, zeroWidthLimit]
    omega
  simp only [checkCount, Datum.checkCount, if_pos, sum]
  split <;> rfl

theorem checkCount_pos {width : Nat} (wide : width ≠ 0) (done count : Nat) (input : List UInt8) :
    checkCount width done count input =
      if shorterThan input (Size.mul count width) then
        .error (.here (.blockCount count input.length)) input
      else .ok () input := by
  rw [checkCount, Datum.checkCount, if_neg wide]
  simp only [Bind.bind, EStateM.bind, Reads.fewer?, Reader.fewer?]
  split <;> rfl

end Wire

end Clickstream

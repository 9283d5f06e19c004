import Clickstream.Kind

namespace Clickstream

namespace Ieee

/-! Floats are held as their bit patterns, so that a NaN keeps its payload and a zero its sign. -/

def isNan32 (bits : UInt32) : Bool := bits &&& 0x7fffffff > 0x7f800000

def isZero32 (bits : UInt32) : Bool := bits &&& 0x7fffffff == 0

/-- A NaN equals nothing, and the two zeros are equal. -/
def equal32 (a b : UInt32) : Bool :=
  !isNan32 a && !isNan32 b && (a == b || isZero32 a && isZero32 b)

def isNan64 (bits : UInt64) : Bool := bits &&& 0x7fffffffffffffff > 0x7ff0000000000000

def isZero64 (bits : UInt64) : Bool := bits &&& 0x7fffffffffffffff == 0

def equal64 (a b : UInt64) : Bool :=
  !isNan64 a && !isNan64 b && (a == b || isZero64 a && isZero64 b)

end Ieee

/-- A datum. A union names the branch it was written under, an enum the position of its symbol. -/
inductive Value where
  | null
  | boolean (flag : Bool)
  | int (n : Int32)
  | long (n : Int64)
  | float (bits : UInt32)
  | double (bits : UInt64)
  | bytes (data : List UInt8)
  | string (text : String)
  | array (items : List Value)
  | map (entries : List (String × Value))
  | union (branch : UInt32) (value : Value)
  | enum (symbol : UInt32)
  | fixed (data : List UInt8)
  | record (values : List Value)

namespace Value

def kind : Value → Kind
  | null => .null
  | boolean _ => .boolean
  | int _ => .int
  | long _ => .long
  | float _ => .float
  | double _ => .double
  | bytes _ => .bytes
  | string _ => .string
  | array _ => .array
  | map _ => .map
  | union _ _ => .union
  | enum _ => .enum
  | fixed _ => .fixed
  | record _ => .record

mutual

/-- Equality as a reader of the data sees it: floats compare as numbers, entries in order. -/
def same : Value → Value → Bool
  | null, null => true
  | boolean a, boolean b => a == b
  | int a, int b => a == b
  | long a, long b => a == b
  | float a, float b => Ieee.equal32 a b
  | double a, double b => Ieee.equal64 a b
  | bytes a, bytes b => a == b
  | string a, string b => a == b
  | array as, array bs => sameItems as bs
  | map as, map bs => sameEntries as bs
  | union m a, union n b => m == n && same a b
  | enum a, enum b => a == b
  | fixed a, fixed b => a == b
  | record as, record bs => sameItems as bs
  | _, _ => false

def sameItems : List Value → List Value → Bool
  | [], [] => true
  | a :: as, b :: bs => same a b && sameItems as bs
  | _, _ => false

def sameEntries : List (String × Value) → List (String × Value) → Bool
  | [], [] => true
  | (j, a) :: as, (k, b) :: bs => j == k && same a b && sameEntries as bs
  | _, _ => false

end

/-- Not a lawful equality: a value that holds a NaN differs from itself. -/
instance : BEq Value := ⟨same⟩

end Value

end Clickstream

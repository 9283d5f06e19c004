import Clickstream.Kind

namespace Clickstream

/-- The shape of a datum. Names are not checked here: `Schema.validate` does that. -/
inductive Schema where
  | null
  | boolean
  | int
  | long
  | float
  | double
  | bytes
  | string
  | array (item : Schema)
  | map (value : Schema)
  | union (branches : List Schema)
  | enum (name : String) (symbols : List String)
  | fixed (name : String) (size : Nat)
  | record (name : String) (fields : List (String × Schema))

namespace Schema

def kind : Schema → Kind
  | null => .null
  | boolean => .boolean
  | int => .int
  | long => .long
  | float => .float
  | double => .double
  | bytes => .bytes
  | string => .string
  | array _ => .array
  | map _ => .map
  | union _ => .union
  | enum _ _ => .enum
  | fixed _ _ => .fixed
  | record _ _ => .record

/-- A value or nothing. -/
def optional (inner : Schema) : Schema := union [null, inner]

mutual

/-- Structural equality: names, symbols, fields and branches in order. -/
def same : Schema → Schema → Bool
  | null, null => true
  | boolean, boolean => true
  | int, int => true
  | long, long => true
  | float, float => true
  | double, double => true
  | bytes, bytes => true
  | string, string => true
  | array a, array b => same a b
  | map a, map b => same a b
  | union as, union bs => sameBranches as bs
  | enum m as, enum n bs => m == n && as == bs
  | fixed m a, fixed n b => m == n && a == b
  | record m as, record n bs => m == n && sameFields as bs
  | _, _ => false

def sameBranches : List Schema → List Schema → Bool
  | [], [] => true
  | a :: as, b :: bs => same a b && sameBranches as bs
  | _, _ => false

def sameFields : List (String × Schema) → List (String × Schema) → Bool
  | [], [] => true
  | (m, a) :: as, (n, b) :: bs => m == n && same a b && sameFields as bs
  | _, _ => false

end

instance : BEq Schema := ⟨same⟩

end Schema

end Clickstream

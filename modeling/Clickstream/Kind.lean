namespace Clickstream

/-- What a node is, of a schema and of a value alike. -/
inductive Kind where
  | null | boolean | int | long | float | double | bytes | string
  | array | map | union | enum | fixed | record
  deriving DecidableEq, Repr

def Kind.name : Kind → String
  | .null => "null"
  | .boolean => "boolean"
  | .int => "int"
  | .long => "long"
  | .float => "float"
  | .double => "double"
  | .bytes => "bytes"
  | .string => "string"
  | .array => "array"
  | .map => "map"
  | .union => "union"
  | .enum => "enum"
  | .fixed => "fixed"
  | .record => "record"

end Clickstream

import Clickstream.Schema.Validity
import Clickstream.Wire.Read
import Clickstream.Wire.Write

namespace Clickstream

/-- Everything that can be wrong with a record: its schema, its value, or its bytes. -/
inductive Fault where
  | mismatch (mismatch : Located Mismatch)
  | schema (flaw : Located SchemaFlaw)
  | corrupt (corruption : Located Corruption)
  | trailing (remaining : Nat)
  deriving DecidableEq, Repr

namespace Fault

/-- A stable name for logs. -/
def code : Fault → String
  | .mismatch _ => "record.schema_mismatch"
  | .schema _ => "record.invalid_schema"
  | .corrupt _ => "record.decode"
  | .trailing _ => "record.trailing_bytes"

def message : Fault → String
  | .mismatch ⟨path, cause⟩ =>
    s!"value at `{path.text}` does not match schema: " ++
      s!"expected {cause.expected}, found {cause.found}"
  | .schema ⟨path, flaw⟩ => s!"invalid schema at `{path.text}`: {flaw.text}"
  | .corrupt ⟨path, cause⟩ => s!"failed to decode `{path.text}`: {cause.text}"
  | .trailing remaining => s!"{remaining} trailing bytes left after decoding"

end Fault

/-- Reads bytes that hold one value and nothing else. -/
def Wire.decode (schema : Schema) (bytes : List UInt8) : Except Fault Value :=
  match Wire.read schema bytes with
  | .ok value [] => .ok value
  | .ok _ rest => .error (.trailing rest.length)
  | .error corruption _ => .error (.corrupt corruption)

end Clickstream

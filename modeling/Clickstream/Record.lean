import Clickstream.Schema.Validity
import Clickstream.Value

namespace Clickstream

/-- A value and the schema it is to be written under. Neither is checked here. -/
structure Record where
  schema : Schema
  value : Value

namespace Record

/-- A record whose schema is valid and describes a record. The value is not looked at: that it
fits the schema shows when it is written. -/
def ofValid (schema : Schema) (value : Value) : Except (Located SchemaFlaw) Record := do
  Schema.refuseIf (schema.kind ≠ .record) (.notRecord schema.kind)
  schema.validate
  return ⟨schema, value⟩

end Record

end Clickstream

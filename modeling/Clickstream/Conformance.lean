import Clickstream.Wire.Write

namespace Clickstream

/-- A value that fits a schema, from the root down. -/
inductive Conforms : Schema → Value → Prop
  | null : Conforms .null .null
  | boolean (flag : Bool) : Conforms .boolean (.boolean flag)
  | int (n : Int32) : Conforms .int (.int n)
  | long (n : Int64) : Conforms .long (.long n)
  | float (bits : UInt32) : Conforms .float (.float bits)
  | double (bits : UInt64) : Conforms .double (.double bits)
  | bytes (data : List UInt8) : Conforms .bytes (.bytes data)
  | string (text : String) : Conforms .string (.string text)
  | array {item : Schema} {items : List Value} : (∀ value ∈ items, Conforms item value) →
    Conforms (.array item) (.array items)
  | map {schema : Schema} {entries : List (String × Value)} :
    (∀ entry ∈ entries, Conforms schema entry.2) → Conforms (.map schema) (.map entries)
  | union {branches : List Schema} {branch : UInt32} {schema : Schema} {value : Value} :
    branches[branch.toNat]? = some schema → Conforms schema value →
    Conforms (.union branches) (.union branch value)
  | enum {name : String} {symbols : List String} {symbol : UInt32} :
    symbol.toNat < symbols.length → Conforms (.enum name symbols) (.enum symbol)
  | fixed (name : String) (data : List UInt8) : Conforms (.fixed name data.length) (.fixed data)
  | record {name : String} {fields : List (String × Schema)} {values : List Value} :
    fields.length = values.length → (∀ pair ∈ fields.zip values, Conforms pair.1.2 pair.2) →
    Conforms (.record name fields) (.record values)

/-- What keeps a value from fitting a schema at the root, whatever is below. -/
def misfit? : Schema → Value → Option Mismatch
  | .union branches, .union branch _ =>
    if branch.toNat < branches.length then none else some (.branch branches.length branch)
  | .enum name symbols, .enum symbol =>
    if symbol.toNat < symbols.length then none else some (.symbol name symbols.length symbol)
  | .fixed name size, .fixed data =>
    if data.length = size then none else some (.size name size data.length)
  | .record name fields, .record values =>
    if fields.length = values.length then none
    else some (.arity name fields.length values.length)
  | schema, value =>
    if schema.kind = value.kind then none else some (.kind schema.kind value.kind)

/-- A node of a schema, and the node of a value that stands against it. -/
structure Node where
  path : Path
  schema : Schema
  value : Value

namespace Node

def misfit? (node : Node) : Option Mismatch := Clickstream.misfit? node.schema node.value

def fault? (node : Node) : Option (Located Mismatch) := node.misfit?.map (Located.mk node.path)

/-- The same node seen from one node further up. -/
def under (segment : Segment) (node : Node) : Node := { node with path := segment :: node.path }

end Node

mutual

/-- The nodes of a schema and a value, a node before those below it and these from left to right. -/
def nodes : Schema → Value → List Node
  | .array item, .array items => ⟨[], .array item, .array items⟩ :: itemNodes item 0 items
  | .map schema, .map entries => ⟨[], .map schema, .map entries⟩ :: entryNodes schema entries
  | .union branches, .union branch value =>
    ⟨[], .union branches, .union branch value⟩ ::
      match branches[branch.toNat]? with
      | some schema => (nodes schema value).map (.under (.branch branch.toNat))
      | none => []
  | .record name fields, .record values =>
    ⟨[], .record name fields, .record values⟩ :: fieldNodes fields values
  | schema, value => [⟨[], schema, value⟩]
termination_by structural _ value => value

def itemNodes (item : Schema) (position : Nat) : List Value → List Node
  | [] => []
  | value :: rest =>
    (nodes item value).map (.under (.index position)) ++ itemNodes item (position + 1) rest
termination_by structural values => values

def entryNodes (schema : Schema) : List (String × Value) → List Node
  | [] => []
  | (key, value) :: rest =>
    (nodes schema value).map (.under (.key key)) ++ entryNodes schema rest
termination_by structural entries => entries

def fieldNodes : List (String × Schema) → List Value → List Node
  | (name, schema) :: fields, value :: values =>
    (nodes schema value).map (.under (.field name)) ++ fieldNodes fields values
  | _, _ => []
termination_by structural _ values => values

end

/-- The path from a schema and a value down to others, step by step. Entries of one key are not told
apart by their paths. -/
inductive Leads : Path → Schema → Value → Schema → Value → Prop
  | here (schema : Schema) (value : Value) : Leads [] schema value schema value
  | index {position : Nat} {path : Path} {item schema : Schema} {items : List Value}
    {inner value : Value} : items[position]? = some inner → Leads path item inner schema value →
    Leads (.index position :: path) (.array item) (.array items) schema value
  | key {key : String} {path : Path} {outer schema : Schema} {entries : List (String × Value)}
    {inner value : Value} : (key, inner) ∈ entries → Leads path outer inner schema value →
    Leads (.key key :: path) (.map outer) (.map entries) schema value
  | branch {branch : UInt32} {path : Path} {branches : List Schema} {outer schema : Schema}
    {inner value : Value} : branches[branch.toNat]? = some outer →
    Leads path outer inner schema value →
    Leads (.branch branch.toNat :: path) (.union branches) (.union branch inner) schema value
  | field {position : Nat} {name record : String} {path : Path} {fields : List (String × Schema)}
    {values : List Value} {outer schema : Schema} {inner value : Value} :
    fields[position]? = some (name, outer) → values[position]? = some inner →
    Leads path outer inner schema value →
    Leads (.field name :: path) (.record record fields) (.record values) schema value

namespace Value

/-- One value directly in another. -/
inductive Inside : Value → Value → Prop
  | item {value : Value} {items : List Value} : value ∈ items → Inside value (.array items)
  | entry {entry : String × Value} {entries : List (String × Value)} : entry ∈ entries →
    Inside entry.2 (.map entries)
  | branch (branch : UInt32) (value : Value) : Inside value (.union branch value)
  | field {value : Value} {values : List Value} : value ∈ values → Inside value (.record values)

theorem Inside.sizeOf_lt {inner outer : Value} (h : Inside inner outer) :
    sizeOf inner < sizeOf outer := by
  cases h with
  | item mem | field mem =>
    have := List.sizeOf_lt_of_mem mem
    simp only [array.sizeOf_spec, record.sizeOf_spec]
    omega
  | @entry entry entries mem =>
    have whole := List.sizeOf_lt_of_mem mem
    obtain ⟨key, value⟩ := entry
    simp only [map.sizeOf_spec, Prod.mk.sizeOf_spec] at whole ⊢
    omega
  | branch branch value =>
    simp only [union.sizeOf_spec]
    omega

@[elab_as_elim]
theorem induction {motive : Value → Prop} (value : Value)
    (step : ∀ value, (∀ inner, Inside inner value → motive inner) → motive value) :
    motive value :=
  step value fun inner _ => induction inner step
termination_by value
decreasing_by exact Inside.sizeOf_lt ‹_›

mutual

/-- The value and all that is in it, outermost first and from left to right. -/
def parts : Value → List Value
  | .array items => .array items :: itemParts items
  | .map entries => .map entries :: entryParts entries
  | .union branch value => .union branch value :: parts value
  | .record values => .record values :: itemParts values
  | value => [value]
termination_by structural value => value

def itemParts : List Value → List Value
  | [] => []
  | value :: rest => parts value ++ itemParts rest
termination_by structural values => values

def entryParts : List (String × Value) → List Value
  | [] => []
  | (_, value) :: rest => parts value ++ entryParts rest
termination_by structural entries => entries

end

end Value

/-- A schema and a value of one kind at their roots. -/
inductive Paired : Schema → Value → Prop
  | null : Paired .null .null
  | boolean (flag : Bool) : Paired .boolean (.boolean flag)
  | int (n : Int32) : Paired .int (.int n)
  | long (n : Int64) : Paired .long (.long n)
  | float (bits : UInt32) : Paired .float (.float bits)
  | double (bits : UInt64) : Paired .double (.double bits)
  | bytes (data : List UInt8) : Paired .bytes (.bytes data)
  | string (text : String) : Paired .string (.string text)
  | array (item : Schema) (items : List Value) : Paired (.array item) (.array items)
  | map (schema : Schema) (entries : List (String × Value)) : Paired (.map schema) (.map entries)
  | union (branches : List Schema) (branch : UInt32) (value : Value) :
    Paired (.union branches) (.union branch value)
  | enum (name : String) (symbols : List String) (symbol : UInt32) :
    Paired (.enum name symbols) (.enum symbol)
  | fixed (name : String) (size : Nat) (data : List UInt8) :
    Paired (.fixed name size) (.fixed data)
  | record (name : String) (fields : List (String × Schema)) (values : List Value) :
    Paired (.record name fields) (.record values)

variable {schema : Schema} {value : Value}

theorem Paired.of_kind (same : schema.kind = value.kind) : Paired schema value := by
  cases value with
  | null => cases schema <;> first | exact .null | nomatch same
  | boolean => cases schema <;> first | exact .boolean _ | nomatch same
  | int => cases schema <;> first | exact .int _ | nomatch same
  | long => cases schema <;> first | exact .long _ | nomatch same
  | float => cases schema <;> first | exact .float _ | nomatch same
  | double => cases schema <;> first | exact .double _ | nomatch same
  | bytes => cases schema <;> first | exact .bytes _ | nomatch same
  | string => cases schema <;> first | exact .string _ | nomatch same
  | array => cases schema <;> first | exact .array _ _ | nomatch same
  | map => cases schema <;> first | exact .map _ _ | nomatch same
  | union => cases schema <;> first | exact .union _ _ _ | nomatch same
  | enum => cases schema <;> first | exact .enum _ _ _ | nomatch same
  | fixed => cases schema <;> first | exact .fixed _ _ _ | nomatch same
  | record => cases schema <;> first | exact .record _ _ _ | nomatch same

/-- What holds of every node of a schema and the value against it, wherever these stand. -/
def Everywhere (property : Schema → Value → Prop) (schema : Schema) (value : Value) : Prop :=
  ∀ node ∈ nodes schema value, property node.schema node.value

section

variable {property : Schema → Value → Prop}

theorem Everywhere.root (h : Everywhere property schema value) : property schema value := by
  unfold Everywhere nodes at h
  split at h <;> exact h _ List.mem_cons_self

theorem everywhere_leaf_iff (leaf : nodes schema value = [⟨[], schema, value⟩]) :
    Everywhere property schema value ↔ property schema value := by
  rw [Everywhere, leaf, List.forall_mem_singleton]

theorem forall_under {segment : Segment} {below : List Node} :
    (∀ node ∈ below.map (Node.under segment), property node.schema node.value) ↔
      ∀ node ∈ below, property node.schema node.value := List.forall_mem_map

theorem forall_itemNodes {item : Schema} {position : Nat} {items : List Value} :
    (∀ node ∈ itemNodes item position items, property node.schema node.value) ↔
      ∀ value ∈ items, Everywhere property item value := by
  induction items generalizing position with
  | nil => simp [itemNodes]
  | cons value rest ih =>
    rw [itemNodes, List.forall_mem_append, forall_under, ih, List.forall_mem_cons]
    rfl

theorem forall_entryNodes {entries : List (String × Value)} :
    (∀ node ∈ entryNodes schema entries, property node.schema node.value) ↔
      ∀ entry ∈ entries, Everywhere property schema entry.2 := by
  induction entries with
  | nil => simp [entryNodes]
  | cons entry rest ih =>
    rw [entryNodes, List.forall_mem_append, forall_under, ih, List.forall_mem_cons]
    rfl

theorem forall_fieldNodes {fields : List (String × Schema)} {values : List Value} :
    (∀ node ∈ fieldNodes fields values, property node.schema node.value) ↔
      ∀ pair ∈ fields.zip values, Everywhere property pair.1.2 pair.2 := by
  induction fields generalizing values with
  | nil => cases values <;> simp [fieldNodes]
  | cons field fields ih =>
    cases values with
    | nil => simp [fieldNodes]
    | cons value values =>
      rw [fieldNodes, List.forall_mem_append, forall_under, ih, List.zip_cons_cons,
        List.forall_mem_cons]
      rfl

theorem everywhere_array_iff {item : Schema} {items : List Value} :
    Everywhere property (.array item) (.array items) ↔
      property (.array item) (.array items) ∧ ∀ value ∈ items, Everywhere property item value := by
  rw [Everywhere, nodes, List.forall_mem_cons, forall_itemNodes]

theorem everywhere_map_iff {entries : List (String × Value)} :
    Everywhere property (.map schema) (.map entries) ↔ property (.map schema) (.map entries) ∧
      ∀ entry ∈ entries, Everywhere property schema entry.2 := by
  rw [Everywhere, nodes, List.forall_mem_cons, forall_entryNodes]

theorem everywhere_union_iff {branches : List Schema} {branch : UInt32}
    (found : branches[branch.toNat]? = some schema) :
    Everywhere property (.union branches) (.union branch value) ↔
      property (.union branches) (.union branch value) ∧ Everywhere property schema value := by
  simp only [Everywhere, nodes, found, List.forall_mem_cons, forall_under]

theorem everywhere_record_iff {name : String} {fields : List (String × Schema)}
    {values : List Value} : Everywhere property (.record name fields) (.record values) ↔
      property (.record name fields) (.record values) ∧
        ∀ pair ∈ fields.zip values, Everywhere property pair.1.2 pair.2 := by
  rw [Everywhere, nodes, List.forall_mem_cons, forall_fieldNodes]

end

end Clickstream

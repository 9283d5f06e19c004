import Clickstream.Proofs.Layout
import Clickstream.Proofs.Reading

namespace Clickstream

mutual

/-- No collection in the value has `2 ^ 63` items or more. -/
def Value.Countable : Value → Prop
  | .array items => items.length < 2 ^ 63 ∧ Value.CountableItems items
  | .map entries => entries.length < 2 ^ 63 ∧ Value.CountableEntries entries
  | .union _ value => value.Countable
  | .record values => Value.CountableItems values
  | _ => True

def Value.CountableItems : List Value → Prop
  | [] => True
  | value :: rest => value.Countable ∧ Value.CountableItems rest

def Value.CountableEntries : List (String × Value) → Prop
  | [] => True
  | (_, value) :: rest => value.Countable ∧ Value.CountableEntries rest

end

namespace Wire
open Datum Varint Writer

mutual

/-- No array in the value has more items that take no bytes than a reader will have. -/
def Capped : Schema → Value → Prop
  | .array item, .array items =>
    (item.minWidth = 0 → items.length ≤ zeroWidthLimit) ∧ CappedItems item items
  | .map schema, .map entries => CappedEntries schema entries
  | .union branches, .union branch value =>
    match branches[branch.toNat]? with
    | some schema => Capped schema value
    | none => True
  | .record _ fields, .record values => CappedFields fields values
  | _, _ => True
termination_by structural _ value => value

def CappedItems (item : Schema) : List Value → Prop
  | [] => True
  | value :: rest => Capped item value ∧ CappedItems item rest
termination_by structural values => values

def CappedEntries (schema : Schema) : List (String × Value) → Prop
  | [] => True
  | (_, value) :: rest => Capped schema value ∧ CappedEntries schema rest
termination_by structural entries => entries

def CappedFields : List (String × Schema) → List Value → Prop
  | (_, schema) :: fields, value :: values => Capped schema value ∧ CappedFields fields values
  | _, _ => True
termination_by structural _ values => values

end

theorem codes_ofNat {n : Nat} (h : n < 2 ^ 63) : Codes (Varint.encode (.ofNat n)) n := by
  have codes := encode_codes (.ofNat n)
  rwa [Int64.toInt_ofNat_of_lt h] at codes

theorem toInt_position (position : UInt32) :
    position.toUInt64.toInt64.toInt = position.toNat := by
  have top := position.toNat_lt
  rw [← Int64.toInt_toBitVec, UInt64.toBitVec_toInt64, BitVec.toInt_eq_toNat_cond,
    UInt64.toNat_toBitVec, UInt32.toNat_toUInt64, if_pos (by omega)]

theorem codes_position (position : UInt32) :
    Codes (Varint.encode position.toUInt64.toInt64) position.toNat :=
  toInt_position position ▸ encode_codes position.toUInt64.toInt64

theorem sized_of_emits {data bytes : List UInt8} (h : Emits (writeBytes data) bytes)
    (short : bytes.length < 2 ^ 63) : Sized bytes data := by
  obtain rfl := emits_writeBytes_iff.mp h
  rw [List.length_append] at short
  exact ⟨_, rfl, codes_ofNat (by omega)⟩

/-- A collection is written as one block. -/
theorem Framed.blocks {α : Type} {item : Grammar α} {values : List α}
    {written : List UInt8 → Prop} {bytes : List UInt8} (h : Framed values.length written bytes)
    (countable : values.length < 2 ^ 63)
    (items : ∀ body, written body → body.length ≤ bytes.length → Items item body values) :
    Blocks item bytes values := by
  have zero : Codes (Varint.encode 0) 0 := codes_ofNat (n := 0) (by decide)
  obtain ⟨none, rfl⟩ | ⟨some, body, inside, rfl⟩ := h
  · obtain rfl := List.length_eq_zero_iff.mp none
    exact .done zero
  · have head : BlockCount (Varint.encode (.ofNat values.length)) values.length :=
      .plain (codes_ofNat countable) (by omega)
    have block := Blocks.more head (items body inside (by simp; omega)) (.done zero)
    simpa using block

theorem branchEncodes_iff {branches : List Schema} {position : Nat} {taken : List UInt8}
    {value : Value} : BranchEncodes branches position taken value ↔
      ∃ schema, branches[position]? = some schema ∧ Encodes schema taken value := by
  induction branches generalizing position with
  | nil => simp [BranchEncodes]
  | cons schema rest ih =>
    cases position with
    | zero => simp [BranchEncodes]
    | succ position => simpa [BranchEncodes] using ih

mutual

/-- What is written for a value stands for it, if a reader has that many items. -/
theorem encodes_of_emits {schema : Schema} {value : Value} {bytes : List UInt8}
    (h : Emits (write schema value) bytes) (short : bytes.length < 2 ^ 63)
    (countable : value.Countable) (capped : Capped schema value) : Encodes schema bytes value := by
  cases emits_write_iff.mp h with
  | null => exact ⟨rfl, rfl⟩
  | boolean flag => exact ⟨flag, rfl, rfl⟩
  | int n =>
    have codes := encode_codes n.toInt64
    rw [Int32.toInt_toInt64] at codes
    exact ⟨n, codes, rfl⟩
  | long n => exact ⟨n, encode_codes n, rfl⟩
  | float bits =>
    have top := bits.toNat_lt
    exact ⟨bits, ⟨LittleEndian.length_encode 4 _, LittleEndian.decode_encode 4 _ (by omega)⟩, rfl⟩
  | double bits =>
    have top := bits.toNat_lt
    exact ⟨bits, ⟨LittleEndian.length_encode 8 _, LittleEndian.decode_encode 8 _ (by omega)⟩, rfl⟩
  | bytes data => exact ⟨data, sized_of_emits (emits_writeBytes_iff.mpr rfl) short, rfl⟩
  | string text => exact ⟨text, sized_of_emits (emits_writeBytes_iff.mpr rfl) short, rfl⟩
  | @array item items _ framed =>
    refine ⟨items, ⟨framed.blocks countable.1 fun body inside fits => ?_, capped.1⟩, rfl⟩
    exact items_of_emits inside (by omega) countable.2 capped.2
  | @map schema entries _ framed =>
    refine ⟨entries, framed.blocks countable.1 fun body inside fits => ?_, rfl⟩
    exact entries_of_emits inside (by omega) countable.2 capped
  | @union branches branch schema value body found one =>
    rw [List.length_append] at short
    simp only [Capped, found] at capped
    have inner := encodes_of_emits one (by omega) countable capped
    exact ⟨_, body, branch, value, rfl, codes_position branch,
      branchEncodes_iff.mpr ⟨schema, found, inner⟩, rfl⟩
  | @enum _ _ symbol inside => exact ⟨symbol, ⟨codes_position symbol, inside⟩, rfl⟩
  | fixed => exact ⟨_, ⟨rfl, rfl⟩, rfl⟩
  | @record _ fields values _ same body =>
    exact ⟨values, fieldsEncode_of_emits same body short countable capped, rfl⟩
termination_by structural value

theorem items_of_emits {item : Schema} {position : Nat} {items : List Value} {bytes : List UInt8}
    (h : Emits (writeItems item position items) bytes) (short : bytes.length < 2 ^ 63)
    (countable : Value.CountableItems items) (capped : CappedItems item items) :
    Items (Encodes item) bytes items := by
  match items with
  | [] =>
    obtain rfl := emits_pure_iff.mp h
    exact .nil
  | value :: rest =>
    obtain ⟨front, back, rfl, one, others⟩ := emits_writeItems_cons_iff.mp h
    rw [List.length_append] at short
    exact .cons (encodes_of_emits one (by omega) countable.1 capped.1)
      (items_of_emits others (by omega) countable.2 capped.2)
termination_by structural items

theorem entries_of_emits {schema : Schema} {entries : List (String × Value)} {bytes : List UInt8}
    (h : Emits (writeEntries schema entries) bytes) (short : bytes.length < 2 ^ 63)
    (countable : Value.CountableEntries entries) (capped : CappedEntries schema entries) :
    Items (Entry (Encodes schema)) bytes entries := by
  match entries with
  | [] =>
    obtain rfl := emits_pure_iff.mp h
    exact .nil
  | (key, value) :: rest =>
    obtain ⟨front, back, others, rfl, text, one, more⟩ := emits_writeEntries_cons_iff.mp h
    simp only [List.length_append] at short
    have entry : Entry (Encodes schema) (front ++ back) (key, value) :=
      ⟨front, back, rfl, sized_of_emits text (by omega),
        encodes_of_emits one (by omega) countable.1 capped.1⟩
    exact .cons entry (entries_of_emits more (by omega) countable.2 capped.2)
termination_by structural entries

theorem fieldsEncode_of_emits {fields : List (String × Schema)} {values : List Value}
    {bytes : List UInt8} (same : fields.length = values.length)
    (h : Emits (writeFields fields values) bytes) (short : bytes.length < 2 ^ 63)
    (countable : Value.CountableItems values) (capped : CappedFields fields values) :
    FieldsEncode fields bytes values := by
  match fields, values with
  | [], [] =>
    obtain rfl := emits_pure_iff.mp h
    exact ⟨rfl, rfl⟩
  | (_, schema) :: fields, value :: values =>
    obtain ⟨front, back, rfl, one, others⟩ := emits_writeFields_cons_iff.mp h
    rw [List.length_append] at short
    exact ⟨front, back, value, values, rfl, encodes_of_emits one (by omega) countable.1 capped.1,
      fieldsEncode_of_emits (by simpa using same) others (by omega) countable.2 capped.2, rfl⟩
termination_by structural values

end

end Wire

end Clickstream

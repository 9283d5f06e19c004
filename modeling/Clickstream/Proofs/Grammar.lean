import Clickstream.Proofs.Varint

namespace Clickstream.Wire
open Varint

variable {α : Type}

/-- A length and as many bytes. -/
def Sized (taken data : List UInt8) : Prop :=
  ∃ head, taken = head ++ data ∧ Codes head data.length

/-- The head of a block that is not empty. After a negative number stands another one, which is
not looked at: any number will do. -/
inductive BlockCount : List UInt8 → Nat → Prop
  | plain {head : List UInt8} {count : Int} : Codes head count → 0 < count →
    BlockCount head count.natAbs
  | sized {head size : List UInt8} {count ignored : Int} : Codes head count → count < 0 →
    count ≠ -2 ^ 63 → Codes size ignored → BlockCount (head ++ size) count.natAbs

inductive Items (item : Grammar α) : Grammar (List α)
  | nil : Items item [] []
  | cons {front rest : List UInt8} {value : α} {values : List α} : item front value →
    Items item rest values → Items item (front ++ rest) (value :: values)

/-- Any number of blocks and a count of zero. -/
inductive Blocks (item : Grammar α) : Grammar (List α)
  | done {taken : List UInt8} : Codes taken 0 → Blocks item taken []
  | more {head body rest : List UInt8} {values others : List α} : BlockCount head values.length →
    Items item body values → Blocks item rest others →
    Blocks item (head ++ body ++ rest) (values ++ others)

/-- Items that take no bytes may be so many, over all blocks. -/
def Collection (width : Nat) (item : Grammar α) : Grammar (List α) := fun taken values =>
  Blocks item taken values ∧ (width = 0 → values.length ≤ zeroWidthLimit)

def Entry (item : Grammar Value) : Grammar (String × Value) := fun taken entry =>
  ∃ front back, taken = front ++ back ∧ Sized front (Utf8.encode entry.1) ∧ item back entry.2

mutual

/-- The bytes that may stand for a value of a schema. -/
def Encodes : Schema → Grammar Value
  | .null => fun taken value => taken = [] ∧ value = .null
  | .boolean => fun taken value =>
    ∃ flag, taken = [if flag then 1 else 0] ∧ value = .boolean flag
  | .int => fun taken value => ∃ n, Codes taken n.toInt ∧ value = .int n
  | .long => fun taken value => ∃ n, Codes taken n.toInt ∧ value = .long n
  | .float => fun taken value =>
    ∃ bits, (taken.length = 4 ∧ LittleEndian.decode taken = bits.toNat) ∧ value = .float bits
  | .double => fun taken value =>
    ∃ bits, (taken.length = 8 ∧ LittleEndian.decode taken = bits.toNat) ∧ value = .double bits
  | .bytes => fun taken value => ∃ data, Sized taken data ∧ value = .bytes data
  | .string => fun taken value => ∃ text, Sized taken (Utf8.encode text) ∧ value = .string text
  | .array item => fun taken value =>
    ∃ items, Collection item.minWidth (Encodes item) taken items ∧ value = .array items
  | .map schema => fun taken value =>
    ∃ entries, Blocks (Entry (Encodes schema)) taken entries ∧ value = .map entries
  | .union branches => fun taken value =>
    ∃ front back, ∃ (position : UInt32) (inner : Value), taken = front ++ back ∧
      Codes front position.toNat ∧ BranchEncodes branches position.toNat back inner ∧
      value = .union position inner
  | .enum _ symbols => fun taken value =>
    ∃ position : UInt32, (Codes taken position.toNat ∧ position.toNat < symbols.length) ∧
      value = .enum position
  | .fixed _ size => fun taken value =>
    ∃ data, (data.length = size ∧ taken = data) ∧ value = .fixed data
  | .record _ fields => fun taken value =>
    ∃ values, FieldsEncode fields taken values ∧ value = .record values
termination_by structural schema => schema

/-- The branch at a position. -/
def BranchEncodes : List Schema → Nat → Grammar Value
  | [], _ => fun _ _ => False
  | schema :: _, 0 => Encodes schema
  | _ :: rest, position + 1 => BranchEncodes rest position
termination_by structural branches => branches

/-- One value after the other, in the order of the fields. -/
def FieldsEncode : List (String × Schema) → Grammar (List Value)
  | [] => fun taken values => taken = [] ∧ values = []
  | (_, schema) :: rest => fun taken values =>
    ∃ front back value others, taken = front ++ back ∧ Encodes schema front value ∧
      FieldsEncode rest back others ∧ values = value :: others
termination_by structural fields => fields

end

theorem Sized.pos {taken data : List UInt8} (h : Sized taken data) : 0 < taken.length := by
  obtain ⟨head, rfl, codes⟩ := h
  have := codes.groups.pos
  simp
  omega

theorem BlockCount.pos {head : List UInt8} {count : Nat} (h : BlockCount head count) :
    0 < head.length ∧ 0 < count := by
  cases h with
  | plain codes sign =>
    have := codes.groups.pos
    omega
  | sized codes sign _ _ =>
    have := codes.groups.pos
    simp
    omega

theorem Items.length_le {item : Grammar α} {width : Nat}
    (wide : ∀ taken value, item taken value → width ≤ taken.length)
    {taken : List UInt8} {values : List α} (h : Items item taken values) :
    values.length * width ≤ taken.length := by
  induction h with
  | nil => simp
  | cons one _ ih =>
    have := wide _ _ one
    simp only [List.length_cons, List.length_append, Nat.succ_mul]
    omega

theorem Items.append {item : Grammar α} {front back : List UInt8} {values others : List α}
    (h : Items item front values) (h' : Items item back others) :
    Items item (front ++ back) (values ++ others) := by
  induction h with
  | nil => exact h'
  | cons one _ ih =>
    rw [List.append_assoc]
    exact .cons one ih

theorem Blocks.pos {item : Grammar α} {taken : List UInt8} {values : List α}
    (h : Blocks item taken values) : 0 < taken.length := by
  cases h with
  | done codes => exact codes.groups.pos
  | more count _ _ =>
    have := count.pos
    simp
    omega

mutual

/-- What stands for a value is no shorter than the least width of its schema. -/
theorem Encodes.minWidth_le (schema : Schema) {taken : List UInt8} {value : Value}
    (h : Encodes schema taken value) : schema.minWidth ≤ taken.length := by
  match schema with
  | .null => exact Nat.zero_le _
  | .boolean =>
    obtain ⟨flag, rfl, -⟩ := h
    simp [Schema.minWidth]
  | .int | .long =>
    obtain ⟨n, codes, -⟩ := h
    exact codes.groups.pos
  | .float | .double =>
    obtain ⟨bits, ⟨length, -⟩, -⟩ := h
    simp [Schema.minWidth, length]
  | .bytes | .string =>
    obtain ⟨data, sized, -⟩ := h
    exact sized.pos
  | .array item =>
    obtain ⟨items, collection, -⟩ := h
    exact collection.1.pos
  | .map schema =>
    obtain ⟨entries, blocks, -⟩ := h
    exact blocks.pos
  | .union branches =>
    obtain ⟨front, back, position, inner, rfl, codes, -⟩ := h
    have := codes.groups.pos
    simp [Schema.minWidth]
    omega
  | .enum _ symbols =>
    obtain ⟨position, ⟨codes, -⟩, -⟩ := h
    exact codes.groups.pos
  | .fixed _ size =>
    obtain ⟨data, ⟨length, rfl⟩, -⟩ := h
    simp [Schema.minWidth, length]
  | .record _ fields =>
    obtain ⟨values, body, -⟩ := h
    simpa [Schema.minWidth] using FieldsEncode.fieldsWidth_le fields 0 body

theorem FieldsEncode.fieldsWidth_le (fields : List (String × Schema)) (before : Nat)
    {taken : List UInt8} {values : List Value} (h : FieldsEncode fields taken values) :
    Schema.fieldsWidth before fields ≤ before + taken.length := by
  match fields with
  | [] => simp [Schema.fieldsWidth]
  | (_, schema) :: rest =>
    obtain ⟨front, back, value, others, rfl, one, body, -⟩ := h
    have first := Encodes.minWidth_le schema one
    have others := FieldsEncode.fieldsWidth_le rest (Size.add before schema.minWidth) body
    have sum := Size.add_le before schema.minWidth
    simp only [Schema.fieldsWidth, List.length_append]
    omega

end

end Clickstream.Wire

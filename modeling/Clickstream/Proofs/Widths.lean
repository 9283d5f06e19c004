import Clickstream.Proofs.Layout
import Clickstream.Proofs.Reading

namespace Clickstream

theorem Size.add_eq_zero_iff {a b : Nat} : Size.add a b = 0 ↔ a = 0 ∧ b = 0 := by
  simp only [Size.add, Size.largest]
  omega

/-- The schemas of which no value has anything to write. -/
inductive Schema.Weightless : Schema → Prop
  | null : Weightless .null
  | fixed (name : String) : Weightless (.fixed name 0)
  | record {name : String} {fields : List (String × Schema)} :
    (∀ field ∈ fields, Weightless field.2) → Weightless (.record name fields)

namespace Wire
open Datum Writer

mutual

theorem weightless_of_minWidth (schema : Schema) (none : schema.minWidth = 0) :
    schema.Weightless := by
  match schema with
  | .null => exact .null
  | .fixed name size =>
    have empty : size = 0 := none
    subst empty
    exact .fixed name
  | .record name fields =>
    obtain ⟨-, all⟩ := weightless_of_fieldsWidth fields 0 none
    exact .record all
  | .boolean | .int | .long | .bytes | .string | .array _ | .map _ | .union _ | .enum _ _ =>
    exact absurd none Nat.one_ne_zero
  | .float | .double => exact absurd none (by decide)

/-- Sums that stop at the largest size do not stop at nothing. -/
theorem weightless_of_fieldsWidth (fields : List (String × Schema)) (before : Nat)
    (none : Schema.fieldsWidth before fields = 0) :
    before = 0 ∧ ∀ field ∈ fields, field.2.Weightless := by
  match fields with
  | [] => exact ⟨none, by simp⟩
  | (_, schema) :: rest =>
    obtain ⟨sum, others⟩ := weightless_of_fieldsWidth rest (Size.add before schema.minWidth) none
    obtain ⟨start, first⟩ := Size.add_eq_zero_iff.mp sum
    exact ⟨start, List.forall_mem_cons.mpr ⟨weightless_of_minWidth schema first, others⟩⟩

end

theorem writeFields_weightless {fields : List (String × Schema)} {values : List Value}
    {bytes : List UInt8} (same : fields.length = values.length)
    (h : ∀ field ∈ fields, ∀ value bytes, Emits (write field.2 value) bytes → bytes = [])
    (written : Emits (writeFields fields values) bytes) : bytes = [] := by
  induction fields generalizing values bytes with
  | nil =>
    obtain rfl := List.length_eq_zero_iff.mp same.symm
    exact emits_pure_iff.mp written
  | cons field fields ih =>
    cases values with
    | nil => cases same
    | cons value values =>
      obtain ⟨one, others⟩ := List.forall_mem_cons.mp h
      obtain ⟨front, back, rfl, first, rest⟩ := emits_writeFields_cons_iff.mp written
      rw [one value front first, ih (by simpa using same) others rest, List.append_nil]

theorem write_weightless {schema : Schema} (h : schema.Weightless) {value : Value}
    {bytes : List UInt8} (written : Emits (write schema value) bytes) : bytes = [] := by
  induction h generalizing value bytes with
  | null =>
    cases emits_write_iff.mp written
    rfl
  | fixed name =>
    generalize none : (0 : Nat) = size at written
    cases emits_write_iff.mp written
    exact List.length_eq_zero_iff.mp none.symm
  | record _ ih =>
    cases emits_write_iff.mp written with
    | record same body =>
      exact writeFields_weightless same (fun field mem _ _ => ih field mem) body

theorem fieldsEncode_weightless {fields : List (String × Schema)}
    (h : ∀ field ∈ fields, ∃ value, Encodes field.2 [] value) :
    ∃ values, FieldsEncode fields [] values := by
  induction fields with
  | nil => exact ⟨[], rfl, rfl⟩
  | cons field fields ih =>
    obtain ⟨⟨value, one⟩, others⟩ := List.forall_mem_cons.mp h
    obtain ⟨values, rest⟩ := ih others
    exact ⟨value :: values, [], [], value, values, rfl, one, rest, rfl⟩

theorem encodes_weightless {schema : Schema} (h : schema.Weightless) :
    ∃ value, Encodes schema [] value := by
  induction h with
  | null => exact ⟨.null, rfl, rfl⟩
  | fixed name => exact ⟨.fixed [], [], ⟨rfl, rfl⟩, rfl⟩
  | record _ ih =>
    obtain ⟨values, body⟩ := fieldsEncode_weightless ih
    exact ⟨.record values, values, body, rfl⟩

end Wire

namespace Reader

variable {α : Type}

/-- A reader that takes nothing and refuses nothing, whatever there is to read. -/
def Idle (step : Reader α) : Prop := ∀ input, ∃ value, step input = .ok value input

/-- Lets so many items be read that there are no more than the limit, with those already `done`. -/
def limitNumber (done count : Nat) : Reader Unit := fun input =>
  if zeroWidthLimit < done + count then .error (.here .zeroWidthItems) input else .ok () input

/-- Lets so many items be read that the bytes that are left have room for all. -/
def limitRoom (width count : Nat) : Reader Unit := fun input =>
  if Wire.shorterThan input (Size.mul count width) then
    .error (.here (.blockCount count input.length)) input
  else .ok () input

end Reader

namespace Wire

theorem minWidth_eq_zero_iff (schema : Schema) : schema.minWidth = 0 ↔ (read schema).Idle := by
  constructor
  · intro none input
    obtain ⟨value, stands⟩ := encodes_weightless (weightless_of_minWidth schema none)
    exact ⟨value, (read_exact schema input value input).mpr ⟨[], rfl, stands⟩⟩
  · intro idle
    obtain ⟨value, read⟩ := idle []
    obtain ⟨taken, split, stands⟩ := (read_exact schema [] value []).mp read
    have width := stands.minWidth_le
    obtain ⟨rfl, -⟩ := List.append_eq_nil_iff.mp split.symm
    exact Nat.le_zero.mp width

theorem checkCount_of_zero (done count : Nat) :
    checkCount 0 done count = Reader.limitNumber done count := funext (checkCount_zero done count)

theorem checkCount_of_pos {width : Nat} (some : width ≠ 0) (done count : Nat) :
    checkCount width done count = Reader.limitRoom width count :=
  funext (checkCount_pos some done count)

/-- The least width of a schema bounds what is written and what is read of it. It is none exactly
if reading takes nothing, and then nothing is written either. So items are counted, and not measured
by the bytes that are left, exactly if they never take any: those of a map never are, as each has a
key. -/
theorem minWidth_sound (schema : Schema) :
    (∀ value bytes, encode schema value = .ok bytes → schema.minWidth ≤ bytes.length) ∧
    (∀ input value rest, read schema input = .ok value rest →
      ∃ taken, input = taken ++ rest ∧ schema.minWidth ≤ taken.length) ∧
    (schema.minWidth = 0 → ∀ value bytes, encode schema value = .ok bytes → bytes = []) ∧
    (schema.minWidth = 0 ↔ (read schema).Idle) ∧
    (∀ done count, checkCount schema.minWidth done count = Reader.limitNumber done count ∧
        (read schema).Idle ∨
      checkCount schema.minWidth done count = Reader.limitRoom schema.minWidth count ∧
        ¬ (read schema).Idle) ∧
    (∀ done count, checkCount (Size.add schema.minWidth 1) done count =
      Reader.limitRoom (Size.add schema.minWidth 1) count) := by
  refine ⟨?written, ?taken, ?nothing, minWidth_eq_zero_iff schema, ?items, ?entries⟩
  case written =>
    intro value bytes encoded
    exact minWidth_le_of_emits (encode_ok_iff.mp encoded)
  case taken =>
    intro input value rest accepted
    obtain ⟨taken, split, stands⟩ := (read_exact schema input value rest).mp accepted
    exact ⟨taken, split, stands.minWidth_le⟩
  case nothing =>
    intro none value bytes encoded
    exact write_weightless (weightless_of_minWidth schema none) (encode_ok_iff.mp encoded)
  case items =>
    intro done count
    by_cases none : schema.minWidth = 0
    · rw [none]
      exact .inl ⟨checkCount_of_zero done count, (minWidth_eq_zero_iff schema).mp none⟩
    · exact .inr ⟨checkCount_of_pos none done count, mt (minWidth_eq_zero_iff schema).mpr none⟩
  case entries =>
    intro done count
    have key : Size.add schema.minWidth 1 ≠ 0 := fun none =>
      Nat.one_ne_zero (Size.add_eq_zero_iff.mp none).2
    exact checkCount_of_pos key done count

/-- A length may be padded, and a block may tell its size: that takes more than the least width. -/
theorem minWidth_sound_padded :
    let empty := Schema.record "empty" [("a", .null), ("b", .fixed "none" 0)]
    let schema := Schema.record "padded" [("a", empty), ("b", .array empty), ("c", .float)]
    let input : List UInt8 := [0x83, 0x00, 0x80, 0x00, 0x00, 0x00, 0x00, 0x80, 0x3f, 0xff]
    empty.minWidth = 0 ∧ (read empty).Idle ∧ schema.minWidth = 5 ∧
      ∃ taken, input = taken ++ [0xff] ∧ schema.minWidth ≤ taken.length := by
  intro empty schema input
  obtain ⟨-, taken, -⟩ := minWidth_sound schema
  obtain ⟨-, -, -, nothing, -⟩ := minWidth_sound empty
  have accepted : read schema input = .ok (.record [.record [.null, .fixed []],
      .array [.record [.null, .fixed []], .record [.null, .fixed []]], .float 0x3f800000])
      [0xff] := by rfl
  exact ⟨rfl, nothing.mp rfl, rfl, taken input _ [0xff] accepted⟩

end Wire

end Clickstream

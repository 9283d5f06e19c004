import Clickstream.Proofs.Emits
import Clickstream.Proofs.LittleEndian

namespace Clickstream.Wire
open Datum Writer

theorem encode_ok_iff {schema : Schema} {value : Value} {bytes : List UInt8} :
    encode schema value = .ok bytes ↔ Emits (write schema value) bytes := by
  obtain ⟨transcript, plays, outcome⟩ := exists_transcript schema value
  rw [outcome, plays, emits_play_iff]
  cases transcript.fault <;> simp

theorem writeLong_settled (n : Int64) : Settled (writeLong n) := (writeLong_uniform n).settled

theorem writeBytes_settled (data : List UInt8) : Settled (writeBytes data) :=
  (writeBytes_uniform data).settled

theorem write_settled (schema : Schema) (value : Value) : Settled (write schema value) :=
  (write_uniform.1 schema value).settled

theorem writeFields_settled (fields : List (String × Schema)) (values : List Value) :
    Settled (writeFields fields values) := (write_uniform.2.1 fields values).settled

theorem writeEntries_settled (schema : Schema) (entries : List (String × Value)) :
    Settled (writeEntries schema entries) := (write_uniform.2.2.1 schema entries).settled

theorem writeItems_settled (item : Schema) (position : Nat) (items : List Value) :
    Settled (writeItems item position items) := (write_uniform.2.2.2 item position items).settled

/-- The bytes of a collection of `count` items around those of the items. -/
def Framed (count : Nat) (items : List UInt8 → Prop) (bytes : List UInt8) : Prop :=
  (count = 0 ∧ bytes = Varint.encode 0) ∨
    (count ≠ 0 ∧ ∃ body, items body ∧
      bytes = Varint.encode (.ofNat count) ++ body ++ Varint.encode 0)

theorem emits_writeLong_iff {n : Int64} {bytes : List UInt8} :
    Emits (writeLong n) bytes ↔ bytes = Varint.encode n := emits_put_iff

theorem emits_writeBytes_iff {data bytes : List UInt8} :
    Emits (writeBytes data) bytes ↔ bytes = Varint.encode (.ofNat data.length) ++ data := by
  rw [writeBytes_eq, emits_bind_iff (writeLong_settled _) (Uniform.put _).settled]
  simp only [emits_writeLong_iff, emits_put_iff]
  constructor
  · intro h
    obtain ⟨_, _, rfl, rfl, rfl⟩ := h
    rfl
  · intro h
    subst h
    exact ⟨_, _, rfl, rfl, rfl⟩

theorem emits_writeCollection_iff {count : Nat} {items : Writer Unbounded Unit}
    (h : Settled items) {bytes : List UInt8} :
    Emits (writeCollection count items) bytes ↔ Framed count (Emits items) bytes := by
  by_cases zero : count = 0
  · simp [writeCollection, Framed, zero, emits_writeLong_iff]
  · have last := writeLong_settled 0
    rw [writeCollection, if_neg zero, writeLength,
      emits_bind_iff (writeLong_settled _) (h.bind last)]
    simp only [emits_bind_iff h last, emits_writeLong_iff, Framed, zero, false_and, false_or,
      not_false_eq_true, true_and, ne_eq]
    constructor
    · intro k
      obtain ⟨_, _, rfl, rfl, body, _, rfl, inside, rfl⟩ := k
      exact ⟨body, inside, by simp⟩
    · intro k
      obtain ⟨body, inside, rfl⟩ := k
      exact ⟨_, _, by simp, rfl, body, _, rfl, inside, rfl⟩

/-- All that a value can be written as, one level deep: a value that is not written at all has no
layout. -/
inductive Layout : Schema → Value → List UInt8 → Prop
  | null : Layout .null .null []
  | boolean (flag : Bool) : Layout .boolean (.boolean flag) [if flag then 1 else 0]
  | int (n : Int32) : Layout .int (.int n) (Varint.encode n.toInt64)
  | long (n : Int64) : Layout .long (.long n) (Varint.encode n)
  | float (bits : UInt32) : Layout .float (.float bits) (LittleEndian.encode 4 bits.toNat)
  | double (bits : UInt64) : Layout .double (.double bits) (LittleEndian.encode 8 bits.toNat)
  | bytes (data : List UInt8) :
    Layout .bytes (.bytes data) (Varint.encode (.ofNat data.length) ++ data)
  | string (text : String) : Layout .string (.string text)
    (Varint.encode (.ofNat (Utf8.encode text).length) ++ Utf8.encode text)
  | array {item : Schema} {items : List Value} {bytes : List UInt8} :
    Framed items.length (Emits (writeItems item 0 items)) bytes →
    Layout (.array item) (.array items) bytes
  | map {schema : Schema} {entries : List (String × Value)} {bytes : List UInt8} :
    Framed entries.length (Emits (writeEntries schema entries)) bytes →
    Layout (.map schema) (.map entries) bytes
  | union {branches : List Schema} {branch : UInt32} {schema : Schema} {value : Value}
    {body : List UInt8} : branches[branch.toNat]? = some schema → Emits (write schema value) body →
    Layout (.union branches) (.union branch value) (Varint.encode branch.toUInt64.toInt64 ++ body)
  | enum {name : String} {symbols : List String} {symbol : UInt32} :
    symbol.toNat < symbols.length →
    Layout (.enum name symbols) (.enum symbol) (Varint.encode symbol.toUInt64.toInt64)
  | fixed (name : String) (data : List UInt8) : Layout (.fixed name data.length) (.fixed data) data
  | record {name : String} {fields : List (String × Schema)} {values : List Value}
    {bytes : List UInt8} : fields.length = values.length → Emits (writeFields fields values) bytes →
    Layout (.record name fields) (.record values) bytes

theorem emits_write_iff {schema : Schema} {value : Value} {bytes : List UInt8} :
    Emits (write schema value) bytes ↔ Layout schema value bytes := by
  constructor
  · intro h
    unfold write Datum.write at h
    split at h
    case h_1 => obtain rfl := emits_pure_iff.mp h; exact .null
    case h_2 => obtain rfl := emits_put_iff.mp h; exact .boolean _
    case h_3 => obtain rfl := emits_writeLong_iff.mp h; exact .int _
    case h_4 => obtain rfl := emits_writeLong_iff.mp h; exact .long _
    case h_5 => obtain rfl := emits_put_iff.mp h; exact .float _
    case h_6 => obtain rfl := emits_put_iff.mp h; exact .double _
    case h_7 => obtain rfl := emits_writeBytes_iff.mp h; exact .bytes _
    case h_8 => obtain rfl := emits_writeBytes_iff.mp h; exact .string _
    case h_9 item items =>
      exact .array ((emits_writeCollection_iff (writeItems_settled item 0 items)).mp h)
    case h_10 schema entries =>
      exact .map ((emits_writeCollection_iff (writeEntries_settled schema entries)).mp h)
    case h_11 branches branch value =>
      split at h
      case h_1 schema found =>
        obtain ⟨_, body, rfl, one, two⟩ := (emits_bind_iff (writeLong_settled _)
          ((write_settled schema value).within _)).mp h
        obtain rfl := emits_writeLong_iff.mp one
        exact .union found (emits_within_iff.mp two)
      case h_2 => exact (not_emits_refuse h).elim
    case h_12 symbols symbol =>
      split at h
      · exact (not_emits_refuse h).elim
      · obtain rfl := emits_writeLong_iff.mp h
        exact .enum (by omega)
    case h_13 =>
      split at h
      case isTrue => exact (not_emits_refuse h).elim
      case isFalse same =>
        obtain rfl := Decidable.not_not.mp same
        obtain rfl := emits_put_iff.mp h
        exact .fixed _ _
    case h_14 =>
      split at h
      case isTrue => exact (not_emits_refuse h).elim
      case isFalse same => exact .record (Decidable.not_not.mp same) h
    case h_15 => exact (not_emits_refuse h).elim
  · intro h
    cases h with
    | null => exact emits_pure_iff.mpr rfl
    | boolean | float | double => exact emits_put_iff.mpr rfl
    | int | long => exact emits_writeLong_iff.mpr rfl
    | bytes | string => exact emits_writeBytes_iff.mpr rfl
    | @array item items _ framed =>
      exact (emits_writeCollection_iff (writeItems_settled item 0 items)).mpr framed
    | @map schema entries _ framed =>
      exact (emits_writeCollection_iff (writeEntries_settled schema entries)).mpr framed
    | union found body =>
      simp only [Datum.write, found]
      exact (emits_writeLong_iff.mpr rfl).bind (emits_within_iff.mpr body)
    | enum inside =>
      rw [write, Datum.write, if_neg (by omega)]
      exact emits_writeLong_iff.mpr rfl
    | fixed =>
      rw [write, Datum.write, if_neg (by simp)]
      exact emits_put_iff.mpr rfl
    | record same body =>
      rw [write, Datum.write, if_neg (by simpa using same)]
      exact body

theorem emits_writeItems_cons_iff {item : Schema} {position : Nat} {value : Value}
    {rest : List Value} {bytes : List UInt8} :
    Emits (writeItems item position (value :: rest)) bytes ↔ ∃ front back, bytes = front ++ back ∧
      Emits (write item value) front ∧ Emits (writeItems item (position + 1) rest) back := by
  rw [writeItems_cons, emits_bind_iff ((write_settled item value).within _)
    (writeItems_settled _ _ rest)]
  simp only [emits_within_iff]

theorem emits_writeFields_cons_iff {name : String} {schema : Schema}
    {fields : List (String × Schema)} {value : Value} {values : List Value} {bytes : List UInt8} :
    Emits (writeFields ((name, schema) :: fields) (value :: values)) bytes ↔ ∃ front back,
      bytes = front ++ back ∧ Emits (write schema value) front ∧
      Emits (writeFields fields values) back := by
  rw [writeFields_cons, emits_bind_iff ((write_settled schema value).within _)
    (writeFields_settled fields values)]
  simp only [emits_within_iff]

theorem emits_writeEntries_cons_iff {schema : Schema} {key : String} {value : Value}
    {rest : List (String × Value)} {bytes : List UInt8} :
    Emits (writeEntries schema ((key, value) :: rest)) bytes ↔ ∃ front back others,
      bytes = front ++ back ++ others ∧ Emits (writeBytes (Utf8.encode key)) front ∧
      Emits (write schema value) back ∧ Emits (writeEntries schema rest) others := by
  have one := (write_settled schema value).within (.key key)
  have others := writeEntries_settled schema rest
  rw [writeEntries_cons, emits_bind_iff (writeBytes_settled _) (one.bind others)]
  simp only [emits_bind_iff one others, emits_within_iff]
  constructor
  · intro given
    obtain ⟨front, _, rfl, h, back, others, rfl, k⟩ := given
    exact ⟨front, back, others, by simp, h, k⟩
  · intro given
    obtain ⟨front, back, others, rfl, h, k⟩ := given
    exact ⟨front, back ++ others, by simp, h, back, others, rfl, k⟩

theorem length_encode_pos (n : Int64) : 0 < (Varint.encode n).length :=
  (Varint.encode_codes n).groups.pos

theorem Framed.pos {count : Nat} {items : List UInt8 → Prop} {bytes : List UInt8}
    (h : Framed count items bytes) : 0 < bytes.length := by
  obtain ⟨-, rfl⟩ | ⟨-, body, -, rfl⟩ := h
  · exact length_encode_pos 0
  · have := length_encode_pos (.ofNat count)
    simp only [List.length_append]
    omega

mutual

/-- No value is written in fewer bytes than the least width of its schema. -/
theorem minWidth_le_of_emits {schema : Schema} {value : Value} {bytes : List UInt8}
    (h : Emits (write schema value) bytes) : schema.minWidth ≤ bytes.length := by
  cases emits_write_iff.mp h with
  | null => exact Nat.zero_le _
  | boolean => exact Nat.le_refl 1
  | int | long | enum => exact length_encode_pos _
  | float | double => simp [Schema.minWidth, LittleEndian.length_encode]
  | @bytes data =>
    have := length_encode_pos (.ofNat data.length)
    simp only [Schema.minWidth, List.length_append]
    omega
  | @string text =>
    have := length_encode_pos (.ofNat (Utf8.encode text).length)
    simp only [Schema.minWidth, List.length_append]
    omega
  | array framed | map framed => exact framed.pos
  | @union _ branch _ _ _ _ _ =>
    have := length_encode_pos branch.toUInt64.toInt64
    simp only [Schema.minWidth, List.length_append]
    omega
  | fixed => exact Nat.le_refl _
  | @record _ fields values _ same body =>
    simpa [Schema.minWidth] using fieldsWidth_le_of_emits 0 same body
termination_by structural value

theorem fieldsWidth_le_of_emits {fields : List (String × Schema)} {values : List Value}
    {bytes : List UInt8} (before : Nat) (same : fields.length = values.length)
    (h : Emits (writeFields fields values) bytes) :
    Schema.fieldsWidth before fields ≤ before + bytes.length := by
  match fields, values with
  | [], _ => simp [Schema.fieldsWidth]
  | (_, schema) :: fields, value :: values =>
    obtain ⟨front, back, rfl, one, others⟩ := emits_writeFields_cons_iff.mp h
    have first := minWidth_le_of_emits one
    have even : fields.length = values.length := by simpa using same
    have rest := fieldsWidth_le_of_emits (Size.add before schema.minWidth) even others
    have sum := Size.add_le before schema.minWidth
    simp only [Schema.fieldsWidth, List.length_append]
    omega
termination_by structural values

end

theorem itemsWidth_le_of_emits {item : Schema} {position : Nat} {items : List Value}
    {bytes : List UInt8} (h : Emits (writeItems item position items) bytes) :
    items.length * item.minWidth ≤ bytes.length := by
  induction items generalizing position bytes with
  | nil => simp
  | cons value rest ih =>
    obtain ⟨front, back, rfl, one, others⟩ := emits_writeItems_cons_iff.mp h
    have first := minWidth_le_of_emits one
    have := ih others
    simp only [List.length_cons, List.length_append, Nat.succ_mul]
    omega

theorem entriesWidth_le_of_emits {schema : Schema} {entries : List (String × Value)}
    {bytes : List UInt8} (h : Emits (writeEntries schema entries) bytes) :
    entries.length * Size.add schema.minWidth 1 ≤ bytes.length := by
  induction entries generalizing bytes with
  | nil => simp
  | cons entry rest ih =>
    obtain ⟨front, back, others, rfl, key, one, more⟩ := emits_writeEntries_cons_iff.mp h
    obtain rfl := emits_writeBytes_iff.mp key
    have head := length_encode_pos (.ofNat (Utf8.encode entry.1).length)
    have first := minWidth_le_of_emits one
    have sum := Size.add_le schema.minWidth 1
    have := ih more
    simp only [List.length_cons, List.length_append, Nat.succ_mul]
    omega

end Clickstream.Wire

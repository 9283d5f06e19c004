import Clickstream.Fault
import Clickstream.Proofs.Written

namespace Clickstream.Wire
open Datum Varint
open Writer (Emits emits_pure_iff)

variable {α : Type}

/-- Also the two numbers at the head of a sized block leave room for the code of a count written
plainly. -/
theorem BlockCount.lt {head : List UInt8} {count : Nat} (h : BlockCount head count) :
    2 * count < 128 ^ head.length := by
  cases h with
  | @plain _ count codes sign =>
    have := codes.groups.lt
    have := code_of_nonneg (n := count) (by omega)
    omega
  | @sized head size count _ codes sign _ ignored =>
    have bound := codes.groups.lt
    have := code_of_neg sign
    have more : 128 ^ (head.length + 1) ≤ 128 ^ (head ++ size).length := by
      have := ignored.groups.pos
      exact Nat.pow_le_pow_right (by decide) (by simp; omega)
    rw [Nat.pow_succ] at more
    omega

/-- The lengths of two counts leave room for their sum. -/
theorem add_lt_pow {m n a b : Nat} (hm : 2 * m < 128 ^ a) (hn : 2 * n < 128 ^ b) (ha : 0 < a) :
    2 * (m + n) < 128 ^ (a + b) := by
  have wide : 128 ^ 1 ≤ 128 ^ a := Nat.pow_le_pow_right (by decide) ha
  rw [Nat.pow_add]
  cases b with
  | zero => omega
  | succ b =>
    have wide' : 128 ^ 1 ≤ 128 ^ (b + 1) := Nat.pow_le_pow_right (by decide) (by omega)
    rcases Nat.le_total (128 ^ a) (128 ^ (b + 1)) with le | le
    · have := Nat.mul_le_mul_right (128 ^ (b + 1)) (show 2 ≤ 128 ^ a by omega)
      omega
    · have := Nat.mul_le_mul_left (128 ^ a) (show 2 ≤ 128 ^ (b + 1) by omega)
      omega

/-- All blocks are one: their heads together are no shorter than the head of that one. -/
theorem Blocks.merge {item : Grammar α} {taken : List UInt8} {values : List α}
    (h : Blocks item taken values) : ∃ body spare, Items item body values ∧
      body.length + spare + 1 ≤ taken.length ∧ 2 * values.length < 128 ^ spare := by
  induction h with
  | done codes => exact ⟨[], 0, .nil, codes.groups.pos, by simp⟩
  | @more head body rest values others block items _ ih =>
    obtain ⟨tail, spare, following, room, small⟩ := ih
    refine ⟨body ++ tail, head.length + spare, items.append following, ?_, ?_⟩
    · simp only [List.length_append]
      omega
    · rw [List.length_append]
      exact add_lt_pow block.lt small block.pos.1

/-- However many blocks a collection is split into, all of its items stand in the bytes of all. -/
theorem Blocks.length_le {item : Grammar α} {width : Nat}
    (wide : ∀ taken value, item taken value → width ≤ taken.length)
    {taken : List UInt8} {values : List α} (h : Blocks item taken values) :
    values.length * width ≤ taken.length := by
  obtain ⟨body, spare, items, room, -⟩ := h.merge
  have := items.length_le wide
  omega

/-- A collection in short bytes has few items: each takes a byte, or they are capped. -/
theorem Blocks.countable {item : Grammar α} {width : Nat}
    (wide : ∀ taken value, item taken value → width ≤ taken.length)
    {taken : List UInt8} {values : List α} (h : Blocks item taken values)
    (few : width = 0 → values.length ≤ zeroWidthLimit) (short : taken.length < 2 ^ 63) :
    values.length < 2 ^ 63 := by
  by_cases zero : width = 0
  · have := few zero
    simp only [zeroWidthLimit] at this
    omega
  · have room := h.length_le wide
    have := Nat.le_mul_of_pos_right values.length (Nat.pos_of_ne_zero zero)
    omega

/-- What a step writes for a value stands for it, and is no longer than these bytes. -/
def Rewritten (step : Writer Unbounded Unit) (grammar : Grammar α) (taken : List UInt8)
    (value : α) : Prop :=
  ∃ bytes, Emits step bytes ∧ bytes.length ≤ taken.length ∧ grammar bytes value

theorem sized_rewritten {taken data : List UInt8} (h : Sized taken data) :
    Rewritten (writeBytes data) Sized taken data := by
  obtain ⟨head, rfl, codes⟩ := h
  obtain ⟨length, same⟩ := codes.exists_toInt
  have small : data.length < 2 ^ 63 := by
    have := length.toInt_lt
    omega
  have shortest : (Varint.encode (.ofNat data.length)).length ≤ head.length := by
    refine Codes.shortest ?_
    rwa [Int64.toInt_ofNat_of_lt small]
  refine ⟨_, emits_writeBytes_iff.mpr rfl, ?_, _, rfl, codes_ofNat small⟩
  simp only [List.length_append]
  omega

theorem items_rewritten {item : Schema} (h : ∀ taken value, Encodes item taken value →
    taken.length < 2 ^ 63 → Rewritten (write item value) (Encodes item) taken value)
    {taken : List UInt8} {items : List Value} (short : taken.length < 2 ^ 63)
    (body : Items (Encodes item) taken items) (position : Nat) :
    Rewritten (writeItems item position items) (Items (Encodes item)) taken items := by
  induction body generalizing position with
  | nil => exact ⟨[], emits_pure_iff.mpr rfl, Nat.le_refl _, .nil⟩
  | cons one _ ih =>
    simp only [List.length_append] at short
    obtain ⟨front, written, shorter, stands⟩ := h _ _ one (by omega)
    obtain ⟨back, others, fewer, follow⟩ := ih (by omega) (position + 1)
    refine ⟨front ++ back, emits_writeItems_cons_iff.mpr ⟨_, _, rfl, written, others⟩, ?_,
      .cons stands follow⟩
    simp only [List.length_append]
    omega

theorem entries_rewritten {schema : Schema} (h : ∀ taken value, Encodes schema taken value →
    taken.length < 2 ^ 63 → Rewritten (write schema value) (Encodes schema) taken value)
    {taken : List UInt8} {entries : List (String × Value)} (short : taken.length < 2 ^ 63)
    (body : Items (Entry (Encodes schema)) taken entries) :
    Rewritten (writeEntries schema entries) (Items (Entry (Encodes schema))) taken entries := by
  induction body with
  | nil => exact ⟨[], emits_pure_iff.mpr rfl, Nat.le_refl _, .nil⟩
  | cons entry _ ih =>
    obtain ⟨front, back, rfl, key, one⟩ := entry
    simp only [List.length_append] at short
    obtain ⟨name, spelled, brief, named⟩ := sized_rewritten key
    obtain ⟨inner, written, shorter, stands⟩ := h _ _ one (by omega)
    obtain ⟨rest, others, fewer, follow⟩ := ih (by omega)
    refine ⟨name ++ inner ++ rest, emits_writeEntries_cons_iff.mpr
      ⟨_, _, _, rfl, spelled, written, others⟩, ?_, .cons ⟨_, _, rfl, named, stands⟩ follow⟩
    simp only [List.length_append]
    omega

/-- One block instead of many. -/
theorem blocks_rewritten {item : Grammar α} {taken : List UInt8} {values : List α}
    {step : Writer Unbounded Unit} (countable : values.length < 2 ^ 63)
    (h : Blocks item taken values)
    (items : ∀ body, Items item body values → body.length ≤ taken.length →
      Rewritten step (Items item) body values) :
    ∃ bytes, Framed values.length (Emits step) bytes ∧ bytes.length ≤ taken.length ∧
      Blocks item bytes values := by
  obtain ⟨body, spare, inside, room, small⟩ := h.merge
  obtain ⟨bytes, written, shorter, stands⟩ := items body inside (by omega)
  have last : (Varint.encode 0).length ≤ 1 := by decide
  suffices ∃ whole, Framed values.length (Emits step) whole ∧ whole.length ≤ taken.length by
    obtain ⟨whole, framed, fewer⟩ := this
    refine ⟨whole, framed, fewer, framed.blocks countable fun other emitted _ => ?_⟩
    exact (emitted.unique written) ▸ stands
  by_cases none : values.length = 0
  · exact ⟨_, .inl ⟨none, rfl⟩, by omega⟩
  · refine ⟨_, .inr ⟨none, bytes, written, rfl⟩, ?_⟩
    have head : (Varint.encode (.ofNat values.length)).length ≤ spare := by
      have pos : 0 < spare := by
        refine Nat.pos_of_ne_zero fun zero => ?_
        rw [zero, Nat.pow_zero] at small
        omega
      have code := code_of_nonneg (n := values.length) (by omega)
      exact length_encode_le (by rw [Int64.toInt_ofNat_of_lt countable]; omega) pos
    simp only [List.length_append]
    omega

mutual

theorem write_rewritten (schema : Schema) {taken : List UInt8} {value : Value}
    (h : Encodes schema taken value) (short : taken.length < 2 ^ 63) :
    Rewritten (write schema value) (Encodes schema) taken value := by
  match schema with
  | .null =>
    obtain ⟨rfl, rfl⟩ := h
    exact ⟨[], emits_write_iff.mpr .null, Nat.le_refl _, rfl, rfl⟩
  | .boolean =>
    obtain ⟨flag, rfl, rfl⟩ := h
    exact ⟨_, emits_write_iff.mpr (.boolean flag), Nat.le_refl _, flag, rfl, rfl⟩
  | .int =>
    obtain ⟨n, codes, rfl⟩ := h
    rw [← Int32.toInt_toInt64] at codes
    have written := encode_codes n.toInt64
    rw [Int32.toInt_toInt64] at written
    exact ⟨_, emits_write_iff.mpr (.int n), codes.shortest, n, written, rfl⟩
  | .long =>
    obtain ⟨n, codes, rfl⟩ := h
    exact ⟨_, emits_write_iff.mpr (.long n), codes.shortest, n, encode_codes n, rfl⟩
  | .float =>
    obtain ⟨bits, ⟨length, digits⟩, rfl⟩ := h
    have same := LittleEndian.encode_of_decode length digits
    exact ⟨_, emits_write_iff.mpr (.float bits), Nat.le_of_eq (congrArg List.length same), bits,
      by rw [same]; exact ⟨length, digits⟩, rfl⟩
  | .double =>
    obtain ⟨bits, ⟨length, digits⟩, rfl⟩ := h
    have same := LittleEndian.encode_of_decode length digits
    exact ⟨_, emits_write_iff.mpr (.double bits), Nat.le_of_eq (congrArg List.length same), bits,
      by rw [same]; exact ⟨length, digits⟩, rfl⟩
  | .bytes =>
    obtain ⟨data, sized, rfl⟩ := h
    obtain ⟨bytes, written, shorter, stands⟩ := sized_rewritten sized
    exact ⟨bytes, written, shorter, data, stands, rfl⟩
  | .string =>
    obtain ⟨text, sized, rfl⟩ := h
    obtain ⟨bytes, written, shorter, stands⟩ := sized_rewritten sized
    exact ⟨bytes, written, shorter, text, stands, rfl⟩
  | .array item =>
    obtain ⟨items, ⟨blocks, few⟩, rfl⟩ := h
    have countable := blocks.countable (fun _ _ => Encodes.minWidth_le item) few short
    obtain ⟨bytes, framed, shorter, stands⟩ := blocks_rewritten countable blocks
      fun body inside fits => items_rewritten (fun _ _ => write_rewritten item) (by omega) inside 0
    exact ⟨bytes, emits_write_iff.mpr (.array framed), shorter, items, ⟨stands, few⟩, rfl⟩
  | .map schema =>
    obtain ⟨entries, blocks, rfl⟩ := h
    have wide : Size.add schema.minWidth 1 ≠ 0 := by simp [Size.add, Size.largest]
    have countable := blocks.countable Entry.width_le (absurd · wide) short
    obtain ⟨bytes, framed, shorter, stands⟩ := blocks_rewritten countable blocks
      fun body inside fits =>
        entries_rewritten (fun _ _ => write_rewritten schema) (by omega) inside
    exact ⟨bytes, emits_write_iff.mpr (.map framed), shorter, entries, stands, rfl⟩
  | .union branches =>
    obtain ⟨front, back, position, inner, rfl, codes, one, rfl⟩ := h
    rw [List.length_append] at short
    obtain ⟨schema, found, bytes, written, shorter, stands⟩ :=
      branch_rewritten branches one (by omega)
    have shortest := Codes.shortest (n := position.toUInt64.toInt64) (by rwa [toInt_position])
    refine ⟨_, emits_write_iff.mpr (.union found written), ?_, _, bytes, position, inner, rfl,
      codes_position position, branchEncodes_iff.mpr ⟨schema, found, stands⟩, rfl⟩
    simp only [List.length_append]
    omega
  | .enum name symbols =>
    obtain ⟨position, ⟨codes, inside⟩, rfl⟩ := h
    have shortest := Codes.shortest (n := position.toUInt64.toInt64) (by rwa [toInt_position])
    exact ⟨_, emits_write_iff.mpr (.enum inside), shortest, position,
      ⟨codes_position position, inside⟩, rfl⟩
  | .fixed name size =>
    obtain ⟨data, ⟨rfl, rfl⟩, rfl⟩ := h
    exact ⟨_, emits_write_iff.mpr (.fixed name taken), Nat.le_refl _, taken, ⟨rfl, rfl⟩, rfl⟩
  | .record name fields =>
    obtain ⟨values, body, rfl⟩ := h
    obtain ⟨same, bytes, written, shorter, stands⟩ := fields_rewritten fields body short
    exact ⟨bytes, emits_write_iff.mpr (.record same written), shorter, values, stands, rfl⟩

theorem branch_rewritten (branches : List Schema) {position : Nat} {taken : List UInt8}
    {value : Value} (h : BranchEncodes branches position taken value)
    (short : taken.length < 2 ^ 63) : ∃ schema, branches[position]? = some schema ∧
      Rewritten (write schema value) (Encodes schema) taken value := by
  match branches, position with
  | [], _ => exact h.elim
  | schema :: _, 0 => exact ⟨schema, rfl, write_rewritten schema h short⟩
  | _ :: rest, position + 1 => exact branch_rewritten rest h short

theorem fields_rewritten (fields : List (String × Schema)) {taken : List UInt8}
    {values : List Value} (h : FieldsEncode fields taken values) (short : taken.length < 2 ^ 63) :
    fields.length = values.length ∧
      Rewritten (writeFields fields values) (FieldsEncode fields) taken values := by
  match fields with
  | [] =>
    obtain ⟨rfl, rfl⟩ := h
    exact ⟨rfl, [], emits_pure_iff.mpr rfl, Nat.le_refl _, rfl, rfl⟩
  | (name, schema) :: rest =>
    obtain ⟨front, back, value, others, rfl, one, body, rfl⟩ := h
    rw [List.length_append] at short
    obtain ⟨first, written, shorter, stands⟩ := write_rewritten schema one (by omega)
    obtain ⟨same, last, more, fewer, follow⟩ := fields_rewritten rest body (by omega)
    refine ⟨by simpa using same, first ++ last, emits_writeFields_cons_iff.mpr
      ⟨_, _, rfl, written, more⟩, ?_, _, _, _, _, rfl, stands, follow, rfl⟩
    simp only [List.length_append]
    omega

end

theorem decode_ok_iff {schema : Schema} {bytes : List UInt8} {value : Value} :
    decode schema bytes = .ok value ↔ Encodes schema bytes value := by
  have whole := read_exact schema bytes value []
  simp only [List.append_nil, exists_eq_left'] at whole
  rw [← whole, decode]
  split
  case h_1 other done => simp [done]
  case h_2 other rest some done =>
    simp only [done, reduceCtorEq, EStateM.Result.ok.injEq, false_iff]
    intro h
    obtain ⟨-, none⟩ := h
    exact some none
  case h_3 fault rest failed => simp [failed]

/-- What is read is written again in no more bytes, and read back from them. -/
theorem decode_canonical {schema : Schema} {bytes : List UInt8} {value : Value}
    (decoded : decode schema bytes = .ok value) (short : bytes.length < 2 ^ 63) :
    ∃ canonical, encode schema value = .ok canonical ∧ canonical.length ≤ bytes.length ∧
      decode schema canonical = .ok value := by
  obtain ⟨canonical, written, shorter, stands⟩ :=
    write_rewritten schema (decode_ok_iff.mp decoded) short
  exact ⟨canonical, encode_ok_iff.mpr written, shorter, decode_ok_iff.mpr stands⟩

/-- Two items in a block that tells its size, one in a plain block, and padding throughout. -/
theorem decode_canonical_blocks :
    let bytes := [0x03, 0x06, 0x82, 0x00, 0x04, 0x82, 0x00, 0x06, 0x80, 0x00]
    let value := Value.array [.long 1, .long 2, .long 3]
    decode (.array .long) bytes = .ok value ∧ bytes.length < 2 ^ 63 ∧
      ∃ canonical, encode (.array .long) value = .ok canonical ∧
        canonical.length ≤ bytes.length ∧ decode (.array .long) canonical = .ok value :=
  ⟨rfl, by decide, decode_canonical rfl (by decide)⟩

end Clickstream.Wire

import Clickstream.Proofs.Written

namespace Clickstream

namespace Reader

variable {α β : Type}

/-- A step that is refused because of items that take no bytes, whatever follows these bytes. -/
def Overfull (step : Reader α) (front : List UInt8) : Prop :=
  ∀ rest, ∃ path unread, step (front ++ rest) = .error ⟨path, .zeroWidthItems⟩ unread

namespace Overfull

theorem append {step : Reader α} {front : List UInt8} (h : Overfull step front)
    (back : List UInt8) : Overfull step (front ++ back) := by
  intro rest
  rw [List.append_assoc]
  exact h (back ++ rest)

theorem map (f : α → β) {step : Reader α} {front : List UInt8} (h : Overfull step front) :
    Overfull (f <$> step) front := by
  intro rest
  obtain ⟨path, unread, refused⟩ := h rest
  exact ⟨path, unread, by simp only [Functor.map, EStateM.map, refused]⟩

theorem within (segment : Segment) {step : Reader α} {front : List UInt8}
    (h : Overfull step front) : Overfull (within segment step) front := by
  intro rest
  obtain ⟨path, unread, refused⟩ := h rest
  exact ⟨segment :: path, unread, by simp only [Reader.within, refused, Located.within]⟩

theorem bind {first : Reader α} {front : List UInt8} (h : Overfull first front)
    (second : α → Reader β) : Overfull (first >>= second) front := by
  intro rest
  obtain ⟨path, unread, refused⟩ := h rest
  exact ⟨path, unread, by simp only [Bind.bind, EStateM.bind, refused]⟩

theorem after {first : Reader α} {second : α → Reader β} {grammar : Grammar α}
    {front back : List UInt8} {a : α} (h : Exact first grammar) (one : grammar front a)
    (k : Overfull (second a) back) : Overfull (first >>= second) (front ++ back) := by
  intro rest
  have accepted := (h (front ++ (back ++ rest)) a _).mpr ⟨front, rfl, one⟩
  obtain ⟨path, unread, refused⟩ := k rest
  refine ⟨path, unread, ?_⟩
  rw [List.append_assoc]
  simp only [Bind.bind, EStateM.bind, accepted, refused]

end Overfull

end Reader

namespace Wire
open Datum Reader
open Writer (Emits)

theorem branch?_of_getElem? {branches : List Schema} {position : Nat} {schema : Schema}
    (h : branches[position]? = some schema) : branch? branches position = some (read schema) := by
  induction branches generalizing position with
  | nil => cases h
  | cons _ rest ih =>
    cases position with
    | zero =>
      cases h
      rfl
    | succ position => exact ih h

section Collections

variable {α : Type} {width count : Nat} {item : Nat → Reader α} {body : List UInt8}

/-- A count that asks for no more bytes than the items take is refused for its size only, and else
an item is refused. -/
theorem readBlocks_overfull (some : count ≠ 0) (countable : count < 2 ^ 63)
    (wide : count * width ≤ body.length)
    (h : (width = 0 → count ≤ zeroWidthLimit) → Overfull (readItems item count #[]) body)
    (byte : UInt8) (bound : List UInt8) : Overfull (readBlocks width item (byte :: bound) #[])
      (Varint.encode (.ofNat count) ++ body) := by
  rw [readBlocks_cons]
  refine .after readCount_exact (.inr (.plain (codes_ofNat countable) (by omega))) ?_
  intro rest
  rw [if_neg (by simpa using some)]
  by_cases few : width = 0 → count ≤ zeroWidthLimit
  · have product := Size.mul_le count width
    have passed : checkCount width 0 count (body ++ rest) = .ok () (body ++ rest) :=
      checkCount_ok_iff.mpr ⟨rfl, by simpa using few, fun _ => by simp; omega⟩
    obtain ⟨path, unread, refused⟩ := h few rest
    exact ⟨path, unread, by simp [Bind.bind, EStateM.bind, passed, refused]⟩
  · obtain ⟨narrow, many⟩ := Classical.not_imp.mp few
    have refused : checkCount width 0 count (body ++ rest) =
        .error (.here .zeroWidthItems) (body ++ rest) := by
      rw [narrow, checkCount_zero, Nat.zero_add, if_pos (Nat.lt_of_not_le many)]
    exact ⟨[], body ++ rest, by simp [Bind.bind, EStateM.bind, refused, Located.here]⟩

theorem readCollection_overfull (some : count ≠ 0) (countable : count < 2 ^ 63)
    (wide : count * width ≤ body.length)
    (h : (width = 0 → count ≤ zeroWidthLimit) → Overfull (readItems item count #[]) body) :
    Overfull (readCollection width item) (Varint.encode (.ofNat count) ++ body) := by
  intro rest
  have head := length_encode_pos (.ofNat count)
  obtain ⟨byte, bound, split⟩ := List.exists_cons_of_length_pos
    (l := Varint.encode (.ofNat count) ++ body ++ rest) (by simp; omega)
  obtain ⟨path, unread, refused⟩ := readBlocks_overfull some countable wide h byte bound rest
  rw [split] at refused ⊢
  exact ⟨path, unread, by simp only [readCollection_eq, Functor.map, EStateM.map, refused]⟩

end Collections

mutual

/-- A value of which a reader will not have all items is refused for them, and not for any other
thing in it or behind it. -/
theorem read_overfull {schema : Schema} {value : Value} {bytes : List UInt8}
    (h : Emits (write schema value) bytes) (short : bytes.length < 2 ^ 63)
    (countable : value.Countable) (excess : ¬ Capped schema value) :
    Overfull (read schema) bytes := by
  cases emits_write_iff.mp h with
  | null | boolean | int | long | float | double | bytes | string | enum | fixed =>
    exact absurd trivial excess
  | @array item items _ framed =>
    obtain ⟨none, -⟩ | ⟨some, body, inside, rfl⟩ := framed
    · obtain rfl := List.length_eq_zero_iff.mp none
      exact absurd ⟨fun _ => Nat.zero_le _, trivial⟩ excess
    · simp only [List.length_append] at short
      refine ((readCollection_overfull some countable.1 (itemsWidth_le_of_emits inside)
        fun few => ?_).map Value.array).append _
      have more : ¬ CappedItems item items := fun capped => excess ⟨few, capped⟩
      exact readItems_overfull inside (by omega) countable.2 more #[]
  | @map schema entries _ framed =>
    obtain ⟨none, -⟩ | ⟨some, body, inside, rfl⟩ := framed
    · obtain rfl := List.length_eq_zero_iff.mp none
      exact absurd trivial excess
    · simp only [List.length_append] at short
      refine ((readCollection_overfull some countable.1 (entriesWidth_le_of_emits inside)
        fun _ => ?_).map Value.map).append _
      exact readEntries_overfull inside (by omega) countable.2 excess #[]
  | @union branches branch schema value body found one =>
    rw [List.length_append] at short
    simp only [Capped, found] at excess
    have inner := read_overfull one (by omega) countable excess
    have inside := (List.getElem?_eq_some_iff.mp found).1
    refine .after (readIndex_exact _ _) ⟨codes_position branch, inside⟩ ?_
    rw [branch?_of_getElem? found]
    exact (inner.within _).map _
  | record same body =>
    exact (readFields_overfull same body short countable excess).map _
termination_by structural value

theorem readItems_overfull {item : Schema} {position : Nat} {items : List Value}
    {bytes : List UInt8} (h : Emits (writeItems item position items) bytes)
    (short : bytes.length < 2 ^ 63) (countable : Value.CountableItems items)
    (excess : ¬ CappedItems item items) (done : Array Value) :
    Overfull (readItems (fun position => within (.index position) (read item)) items.length done)
      bytes := by
  match items with
  | [] => exact absurd trivial excess
  | value :: rest =>
    obtain ⟨front, back, rfl, one, others⟩ := emits_writeItems_cons_iff.mp h
    rw [List.length_append] at short
    by_cases first : Capped item value
    · have stands := encodes_of_emits one (by omega) countable.1 first
      refine .after ((read_exact item).within _) stands ?_
      have more : ¬ CappedItems item rest := fun capped => excess ⟨first, capped⟩
      exact readItems_overfull others (by omega) countable.2 more _
    · have inner := read_overfull one (by omega) countable.1 first
      exact ((inner.within _).bind _).append back
termination_by structural items

theorem readEntries_overfull {schema : Schema} {entries : List (String × Value)}
    {bytes : List UInt8} (h : Emits (writeEntries schema entries) bytes)
    (short : bytes.length < 2 ^ 63) (countable : Value.CountableEntries entries)
    (excess : ¬ CappedEntries schema entries) (done : Array (String × Value)) :
    Overfull (readItems (fun _ => do
      let key ← readString
      let value ← within (.key key) (read schema)
      return (key, value)) entries.length done) bytes := by
  match entries with
  | [] => exact absurd trivial excess
  | (key, value) :: rest =>
    obtain ⟨front, back, others, rfl, text, one, more⟩ := emits_writeEntries_cons_iff.mp h
    simp only [List.length_append] at short
    have name := sized_of_emits text (by omega)
    by_cases first : Capped schema value
    · have stands := encodes_of_emits one (by omega) countable.1 first
      refine .after (readEntry_exact (read_exact schema)) (a := (key, value))
        ⟨front, back, rfl, name, stands⟩ ?_
      have beyond : ¬ CappedEntries schema rest := fun capped => excess ⟨first, capped⟩
      exact readEntries_overfull more (by omega) countable.2 beyond _
    · have inner := read_overfull one (by omega) countable.1 first
      have entry : Overfull (do
          let key ← readString
          let value ← within (.key key) (read schema)
          return (key, value)) (front ++ back) :=
        .after readString_exact name ((inner.within _).bind _)
      exact (entry.bind _).append others
termination_by structural entries

theorem readFields_overfull {fields : List (String × Schema)} {values : List Value}
    {bytes : List UInt8} (same : fields.length = values.length)
    (h : Emits (writeFields fields values) bytes) (short : bytes.length < 2 ^ 63)
    (countable : Value.CountableItems values) (excess : ¬ CappedFields fields values) :
    Overfull (readFields fields) bytes := by
  match fields, values with
  | [], [] => exact absurd trivial excess
  | (name, schema) :: fields, value :: values =>
    obtain ⟨front, back, rfl, one, others⟩ := emits_writeFields_cons_iff.mp h
    rw [List.length_append] at short
    by_cases first : Capped schema value
    · have stands := encodes_of_emits one (by omega) countable.1 first
      refine .after ((read_exact schema).within _) stands ?_
      refine .bind (readFields_overfull (by simpa using same) others (by omega) countable.2
        fun capped => excess ⟨first, capped⟩) _
    · have inner := read_overfull one (by omega) countable.1 first
      exact ((inner.within _).bind _).append back
termination_by structural values

end

/-- A value is read back from what was written for it, whatever follows, unless it has more items
that take no bytes than a reader will have. -/
theorem read_encode_append {schema : Schema} {value : Value} {bytes : List UInt8}
    (encoded : encode schema value = .ok bytes) (short : bytes.length < 2 ^ 63)
    (countable : value.Countable) (rest : List UInt8) :
    (Capped schema value → read schema (bytes ++ rest) = .ok value rest) ∧
    (¬ Capped schema value → ∃ path unread,
      read schema (bytes ++ rest) = .error ⟨path, .zeroWidthItems⟩ unread) := by
  have h := encode_ok_iff.mp encoded
  refine ⟨fun capped => ?_, fun excess => read_overfull h short countable excess rest⟩
  exact (read_exact schema _ _ _).mpr ⟨bytes, rfl, encodes_of_emits h short countable capped⟩

theorem emits_nulls (count position : Nat) :
    Emits (writeItems .null position (.replicate count .null)) [] := by
  induction count generalizing position with
  | zero => exact Writer.emits_pure_iff.mpr rfl
  | succ count ih =>
    exact emits_writeItems_cons_iff.mpr ⟨[], [], rfl, emits_write_iff.mpr .null, ih _⟩

theorem countable_nulls (count : Nat) : Value.CountableItems (.replicate count .null) := by
  induction count with
  | zero => trivial
  | succ count ih => exact ⟨trivial, ih⟩

theorem capped_nulls (count : Nat) : CappedItems .null (.replicate count .null) := by
  induction count with
  | zero => trivial
  | succ count ih => exact ⟨trivial, ih⟩

theorem encode_nulls {count : Nat} (h : count ≠ 0) :
    encode (.array .null) (.array (.replicate count .null)) =
      .ok (Varint.encode (.ofNat count) ++ [] ++ Varint.encode 0) := by
  have framed : Framed count (Emits (writeItems .null 0 (.replicate count .null))) _ :=
    .inr ⟨h, [], emits_nulls count 0, rfl⟩
  refine encode_ok_iff.mpr (emits_write_iff.mpr (.array ?_))
  rwa [List.length_replicate]

/-- As many nulls as a reader will have, and one more. -/
theorem read_encode_append_nulls :
    (∃ bytes, encode (.array .null) (.array (.replicate 65536 .null)) = .ok bytes ∧
      read (.array .null) (bytes ++ [7]) = .ok (.array (.replicate 65536 .null)) [7]) ∧
    (∃ bytes, encode (.array .null) (.array (.replicate 65537 .null)) = .ok bytes ∧
      ∃ path unread,
        read (.array .null) (bytes ++ [7]) = .error ⟨path, .zeroWidthItems⟩ unread) := by
  constructor
  · refine ⟨_, encode_nulls (by decide), ?_⟩
    have countable : Value.Countable (.array (.replicate 65536 .null)) :=
      ⟨by rw [List.length_replicate]; decide, countable_nulls _⟩
    have capped : Capped (.array .null) (.array (.replicate 65536 .null)) :=
      ⟨fun _ => by rw [List.length_replicate]; decide, capped_nulls _⟩
    exact (read_encode_append (encode_nulls (by decide)) (by decide) countable [7]).1 capped
  · refine ⟨_, encode_nulls (by decide), ?_⟩
    have countable : Value.Countable (.array (.replicate 65537 .null)) :=
      ⟨by rw [List.length_replicate]; decide, countable_nulls _⟩
    have excess : ¬ Capped (.array .null) (.array (.replicate 65537 .null)) := by
      intro h
      obtain ⟨few, -⟩ := h
      have := few rfl
      rw [List.length_replicate] at this
      exact absurd this (by decide)
    exact (read_encode_append (encode_nulls (by decide)) (by decide) countable [7]).2 excess

end Wire

end Clickstream

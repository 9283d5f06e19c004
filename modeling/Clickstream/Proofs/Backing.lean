import Clickstream.Proofs.Canonical
import Clickstream.Proofs.Misfits

namespace Clickstream

/-- A node of which so many bytes can speak: what takes bytes takes no more than there are, and of
what takes none there is no more than a reader will have. -/
def Backed (size : Nat) : Schema → Value → Prop
  | .array item, .array items => items.length * item.minWidth ≤ size ∧
    (item.minWidth = 0 → items.length ≤ zeroWidthLimit)
  | .map schema, .map entries => entries.length * (schema.minWidth + 1) ≤ size
  | _, .bytes data => data.length ≤ size
  | _, .string text => (Utf8.encode text).length ≤ size
  | _, .fixed data => data.length ≤ size
  | _, _ => True

section

variable {schema : Schema} {value : Value}

theorem map_value_under (segment : Segment) (below : List Node) :
    (below.map (Node.under segment)).map Node.value = below.map Node.value := by
  rw [List.map_map]
  rfl

theorem values_itemNodes {item : Schema} {position : Nat} {items : List Value}
    (h : ∀ value ∈ items, (nodes item value).map Node.value = value.parts) :
    (itemNodes item position items).map Node.value = Value.itemParts items := by
  induction items generalizing position with
  | nil => rfl
  | cons value rest ih =>
    obtain ⟨one, others⟩ := List.forall_mem_cons.mp h
    rw [itemNodes, List.map_append, map_value_under, one, ih others, Value.itemParts]

theorem values_entryNodes {entries : List (String × Value)}
    (h : ∀ entry ∈ entries, (nodes schema entry.2).map Node.value = entry.2.parts) :
    (entryNodes schema entries).map Node.value = Value.entryParts entries := by
  induction entries with
  | nil => rfl
  | cons entry rest ih =>
    obtain ⟨one, others⟩ := List.forall_mem_cons.mp h
    rw [entryNodes, List.map_append, map_value_under, one, ih others, Value.entryParts]

theorem values_fieldNodes {fields : List (String × Schema)} {values : List Value}
    (same : fields.length = values.length)
    (h : ∀ pair ∈ fields.zip values, (nodes pair.1.2 pair.2).map Node.value = pair.2.parts) :
    (fieldNodes fields values).map Node.value = Value.itemParts values := by
  induction fields generalizing values with
  | nil =>
    obtain rfl := List.length_eq_zero_iff.mp same.symm
    rfl
  | cons field fields ih =>
    cases values with
    | nil => cases same
    | cons value values =>
      rw [List.zip_cons_cons] at h
      obtain ⟨one, others⟩ := List.forall_mem_cons.mp h
      rw [fieldNodes, List.map_append, map_value_under, one, ih (by simpa using same) others,
        Value.itemParts]

/-- A schema has a node for all that is in a value that fits it. -/
theorem Conforms.values_nodes (h : Conforms schema value) :
    (nodes schema value).map Node.value = value.parts := by
  induction h with
  | array _ ih => rw [nodes, List.map_cons, values_itemNodes ih, Value.parts]
  | map _ ih => rw [nodes, List.map_cons, values_entryNodes ih, Value.parts]
  | union found _ ih => simp only [nodes, found, List.map_cons, map_value_under, ih, Value.parts]
  | record same _ ih => rw [nodes, List.map_cons, values_fieldNodes same ih, Value.parts]
  | _ => simp [nodes, Value.parts]

end

namespace Wire

variable {α : Type}

/-- Each item stands in a piece of the bytes of all. -/
theorem Items.piece {item : Grammar α} {taken : List UInt8} {values : List α}
    (h : Items item taken values) :
    ∀ value ∈ values, ∃ piece, item piece value ∧ piece.length ≤ taken.length := by
  induction h with
  | nil => simp
  | cons one _ ih =>
    intro value mem
    rw [List.length_append]
    rcases List.mem_cons.mp mem with rfl | others
    · exact ⟨_, one, by omega⟩
    · obtain ⟨piece, inside, fits⟩ := ih value others
      exact ⟨piece, inside, by omega⟩

theorem FieldsEncode.piece {fields : List (String × Schema)} {taken : List UInt8}
    {values : List Value} (h : FieldsEncode fields taken values) :
    fields.length = values.length ∧ ∀ pair ∈ fields.zip values,
      ∃ piece, Encodes pair.1.2 piece pair.2 ∧ piece.length ≤ taken.length := by
  induction fields generalizing taken values with
  | nil =>
    obtain ⟨-, rfl⟩ := h
    simp
  | cons field fields ih =>
    obtain ⟨front, back, value, others, rfl, one, body, rfl⟩ := h
    obtain ⟨same, pieces⟩ := ih body
    refine ⟨by simp [same], fun pair mem => ?_⟩
    rw [List.length_append]
    rcases List.mem_cons.mp mem with rfl | later
    · exact ⟨front, one, by omega⟩
    · obtain ⟨piece, inside, fits⟩ := pieces pair later
      exact ⟨piece, inside, by omega⟩

theorem Sized.length_le {taken data : List UInt8} (h : Sized taken data) :
    data.length ≤ taken.length := by
  obtain ⟨head, rfl, -⟩ := h
  simp

theorem Blocks.piece {item : Grammar α} {taken : List UInt8} {values : List α}
    (h : Blocks item taken values) :
    ∀ value ∈ values, ∃ piece, item piece value ∧ piece.length ≤ taken.length := by
  obtain ⟨body, spare, items, room, -⟩ := h.merge
  intro value mem
  obtain ⟨piece, inside, fits⟩ := items.piece value mem
  exact ⟨piece, inside, by omega⟩

/-- What stands for a value fits its schema, and is long enough for all that is in it. -/
theorem Encodes.backed {schema : Schema} {taken : List UInt8} {value : Value} {size : Nat}
    (h : Encodes schema taken value) (fits : taken.length ≤ size) :
    Everywhere (fun schema value => misfit? schema value = none ∧ Backed size schema value)
      schema value := by
  -- What is in a value stands in a piece of the bytes, so that one size will do for all of it.
  induction value using Value.induction generalizing schema taken with
  | step value ih =>
    match schema with
    | .null =>
      obtain ⟨-, rfl⟩ := h
      exact (everywhere_leaf_iff rfl).mpr ⟨rfl, trivial⟩
    | .boolean =>
      obtain ⟨flag, -, rfl⟩ := h
      exact (everywhere_leaf_iff rfl).mpr ⟨rfl, trivial⟩
    | .int | .long =>
      obtain ⟨n, -, rfl⟩ := h
      exact (everywhere_leaf_iff rfl).mpr ⟨rfl, trivial⟩
    | .float | .double =>
      obtain ⟨bits, -, rfl⟩ := h
      exact (everywhere_leaf_iff rfl).mpr ⟨rfl, trivial⟩
    | .bytes | .string =>
      obtain ⟨data, sized, rfl⟩ := h
      exact (everywhere_leaf_iff rfl).mpr ⟨rfl, Nat.le_trans sized.length_le fits⟩
    | .array item =>
      obtain ⟨items, ⟨blocks, few⟩, rfl⟩ := h
      have room := blocks.length_le fun _ _ => Encodes.minWidth_le item
      refine everywhere_array_iff.mpr ⟨⟨rfl, by omega, few⟩, fun inner mem => ?_⟩
      obtain ⟨piece, one, inside⟩ := blocks.piece inner mem
      exact ih inner (.item mem) one (by omega)
    | .map outer =>
      obtain ⟨entries, blocks, rfl⟩ := h
      have room := blocks.length_le Entry.exact_width_le
      refine everywhere_map_iff.mpr ⟨⟨rfl, Nat.le_trans room fits⟩, fun entry mem => ?_⟩
      obtain ⟨piece, ⟨front, back, rfl, -, one⟩, inside⟩ := blocks.piece entry mem
      rw [List.length_append] at inside
      exact ih _ (.entry mem) one (by omega)
    | .union branches =>
      obtain ⟨front, back, position, inner, rfl, -, one, rfl⟩ := h
      obtain ⟨outer, found, one⟩ := branchEncodes_iff.mp one
      rw [List.length_append] at fits
      refine (everywhere_union_iff found).mpr ⟨⟨if_pos ?_, trivial⟩, ?_⟩
      · exact (List.getElem?_eq_some_iff.mp found).1
      · exact ih inner (.branch _ _) one (by omega)
    | .enum name symbols =>
      obtain ⟨position, ⟨-, inside⟩, rfl⟩ := h
      exact (everywhere_leaf_iff rfl).mpr ⟨if_pos inside, trivial⟩
    | .fixed name width =>
      obtain ⟨data, ⟨rfl, rfl⟩, rfl⟩ := h
      exact (everywhere_leaf_iff rfl).mpr ⟨if_pos rfl, fits⟩
    | .record name fields =>
      obtain ⟨values, body, rfl⟩ := h
      obtain ⟨same, pieces⟩ := body.piece
      refine everywhere_record_iff.mpr ⟨⟨if_pos same, trivial⟩, fun pair mem => ?_⟩
      obtain ⟨piece, one, inside⟩ := pieces pair mem
      exact ih _ (.field (List.of_mem_zip mem).2) one (by omega)

/-- Whatever counts the bytes give, in however many blocks and however deep, nothing in what is read
is larger than the bytes that were read have room for. -/
theorem read_backed {schema : Schema} {input rest : List UInt8} {value : Value}
    (h : read schema input = .ok value rest) :
    ∃ taken, input = taken ++ rest ∧ Conforms schema value ∧
      (nodes schema value).map Node.value = value.parts ∧
      ∀ node ∈ nodes schema value, Backed taken.length node.schema node.value := by
  obtain ⟨taken, split, encodes⟩ := (read_exact schema input value rest).mp h
  have sound := encodes.backed (Nat.le_refl _)
  have conforms : Conforms schema value := .of_fits fun node mem => (sound node mem).1
  exact ⟨taken, split, conforms, conforms.values_nodes, fun node mem => (sound node mem).2⟩

/-- Three items that take no bytes, the last in a block that tells its size, and a map of an array
in two blocks. -/
theorem read_backed_nested :
    let schema := Schema.record "r" [("a", .array .null), ("b", .map (.array .long))]
    let input := [4, 1, 0, 0, 2, 2, 0x6b, 2, 14, 2, 16, 0, 0, 0xff]
    let value := Value.record [.array [.null, .null, .null], .map [("k", .array [.long 7, .long 8])]]
    read schema input = .ok value [0xff] ∧ ∃ taken, input = taken ++ [0xff] ∧
      Conforms schema value ∧ (nodes schema value).map Node.value = value.parts ∧
      ∀ node ∈ nodes schema value, Backed taken.length node.schema node.value :=
  ⟨rfl, read_backed rfl⟩

end Wire

end Clickstream

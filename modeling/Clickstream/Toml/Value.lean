namespace Clickstream.Toml

/-- A value of a document. The keys of a table are distinct and in the order of their writing.
Of a date or a time only the fact is kept: no setting is one. -/
inductive Value where
  | string (text : String)
  | integer (n : Int64)
  | float (bits : UInt64)
  | boolean (flag : Bool)
  | dateTime
  | array (items : List Value)
  | table (entries : List (String × Value))

/-- No key stands twice. -/
def Distinct {α : Type} (entries : List (String × α)) : Prop := (entries.map Prod.fst).Nodup

/-- No table in a value gives a key twice. -/
inductive Value.Keyed : Value → Prop
  | string (text : String) : Keyed (.string text)
  | integer (n : Int64) : Keyed (.integer n)
  | float (bits : UInt64) : Keyed (.float bits)
  | boolean (flag : Bool) : Keyed (.boolean flag)
  | dateTime : Keyed .dateTime
  | array {items : List Value} (items_keyed : ∀ item ∈ items, Keyed item) : Keyed (.array items)
  | table {entries : List (String × Value)} (distinct : Distinct entries)
      (entries_keyed : ∀ entry ∈ entries, Keyed entry.2) : Keyed (.table entries)

theorem lookup_isSome_iff {α : Type} {entries : List (String × α)} {key : String} :
    (entries.lookup key).isSome ↔ key ∈ entries.map Prod.fst := by
  simp [List.lookup_isSome_iff]

/-- Each entry of distinct keys is the one that its key finds. -/
theorem lookup_of_mem {α : Type} {entries : List (String × α)} (distinct : Distinct entries)
    {key : String} {a : α} (mem : (key, a) ∈ entries) : entries.lookup key = some a := by
  induction entries with
  | nil => contradiction
  | cons entry entries ih =>
    obtain ⟨fresh, distinct⟩ := List.nodup_cons.mp distinct
    rcases List.mem_cons.mp mem with rfl | mem
    · exact List.lookup_cons_self
    · have other : key ≠ entry.1 := fun same => fresh (same ▸ List.mem_map_of_mem mem)
      rw [List.lookup_cons, beq_false_of_ne other]
      exact ih distinct mem

namespace Value.Keyed

variable {entries : List (String × Value)} (h : (Value.table entries).Keyed)
include h

theorem distinct : Distinct entries := by
  cases h with
  | table distinct _ => exact distinct

theorem entry {entry : String × Value} (mem : entry ∈ entries) : entry.2.Keyed := by
  cases h with
  | table _ keyed => exact keyed entry mem

theorem lookup {key : String} {value : Value} (found : entries.lookup key = some value) :
    value.Keyed := by
  obtain ⟨before, after, rfl, -⟩ := List.lookup_eq_some_iff.mp found
  have mem : (key, value) ∈ before ++ (key, value) :: after := by simp
  exact h.entry mem

end Value.Keyed

end Clickstream.Toml

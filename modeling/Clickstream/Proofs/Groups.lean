import Clickstream.Settings.Meaning
import Mathlib.Data.List.Induction
import Mathlib.Data.List.Nodup
import Mathlib.Data.List.Pairwise

namespace Clickstream.Settings
open Toml (Value Distinct)

variable {α β : Type}

theorem map_ok_iff {ε : Type} {f : α → β} {x : Except ε α} {b : β} :
    x.map f = .ok b ↔ ∃ a, x = .ok a ∧ f a = b := by
  cases x <;> simp [Except.map]

theorem mapError_ok_iff {ε δ : Type} {f : ε → δ} {x : Except ε α} {a : α} :
    x.mapError f = .ok a ↔ x = .ok a := by
  cases x with
  | error => exact ⟨nofun, nofun⟩
  | ok => exact ⟨fun h => congrArg _ (Except.ok.inj h), fun h => congrArg _ (Except.ok.inj h)⟩

/-! The walk through a table. -/

namespace Group

variable {group : Group α} {field : Field α}

theorem setKey_field (mem : field ∈ group.fields) (s : α) (value : Value) :
    group.setKey s (field.key, value) = field.set s value := by
  unfold setKey
  cases found : group.fields.find? fun other => other.key = field.key with
  | none => simpa using List.find?_eq_none.mp found field mem
  | some other =>
    have same : other.key = field.key := by simpa using List.find?_some found
    obtain rfl :=
      List.inj_on_of_nodup_map group.distinct (List.mem_of_find?_eq_some found) mem same
    rfl

theorem setKey_unknown {entry : String × Value}
    (unknown : ∀ field ∈ group.fields, field.key ≠ entry.1) (s : α) :
    group.setKey s entry = .ok s := by
  have none : group.fields.find? (fun field => field.key = entry.1) = none :=
    List.find?_eq_none.mpr fun field mem => by simpa using unknown field mem
  rw [setKey, none]

/-- What one entry can do: it is the value of a field, or it is passed over. -/
theorem setKey_cases (group : Group α) (s : α) (entry : String × Value) :
    (∃ field ∈ group.fields, field.key = entry.1 ∧ group.setKey s entry = field.set s entry.2) ∨
    (∀ field ∈ group.fields, field.key ≠ entry.1) ∧ group.setKey s entry = .ok s := by
  by_cases known : ∃ field ∈ group.fields, field.key = entry.1
  · obtain ⟨field, mem, named⟩ := known
    refine .inl ⟨field, mem, named, ?_⟩
    rw [← setKey_field mem, named]
  · have unknown : ∀ field ∈ group.fields, field.key ≠ entry.1 := by simpa using known
    exact .inr ⟨unknown, setKey_unknown unknown s⟩

end Group

/-- Entries are taken one after the other, on top of the defaults. -/
theorem Library.Lawful.group_table {library : Library} (lawful : library.Lawful) (group : Group α)
    {entries : List (String × Value)} (distinct : Distinct entries) :
    library.group group (.table entries) = entries.foldlM group.setKey group.defaults := by
  induction entries using List.reverseRecOn with
  | nil => exact lawful.group_empty group
  | append_singleton entries entry ih =>
    obtain ⟨key, value⟩ := entry
    have before : Distinct entries :=
      distinct.sublist ((List.sublist_append_left entries _).map Prod.fst)
    rw [List.foldlM_append, ← ih before]
    obtain ⟨field, mem, rfl, -⟩ | ⟨unknown, -⟩ := group.setKey_cases group.defaults (key, value)
    · rw [lawful.group_field mem distinct]
      simp [Group.setKey_field mem]
    · rw [lawful.group_unknown unknown distinct]
      simp only [List.foldlM_cons, Group.setKey_unknown unknown, List.foldlM_nil]
      exact (bind_pure _).symm

/-! Fields and what they mean. -/

/-- A field of a group, what a value means there, and where the group's settings have it. -/
structure Slot (α : Type) extends Field α where
  means : Value → β → Prop
  get : α → β
  read_ok_iff : ∀ {value b}, read value = .ok b ↔ means value b
  get_put : ∀ s b, get (put s b) = b

/-- What is put in one of two slots is not seen in the other. -/
structure Slot.Apart (one other : Slot α) : Prop where
  left : ∀ s b, one.get (other.put s b) = one.get s
  right : ∀ s b, other.get (one.put s b) = other.get s

theorem Slot.Apart.symm {one other : Slot α} (h : one.Apart other) : other.Apart one :=
  ⟨h.right, h.left⟩

instance : Std.Symm (@Slot.Apart α) := ⟨fun _ _ h => h.symm⟩

/-- A group as its slots. Of slots that are written out, the rest can be seen. -/
structure Slots (group : Group α) where
  all : List (Slot α)
  fields_eq : group.fields = all.map Slot.toField := by rfl
  apart : all.Pairwise Slot.Apart := by
    simp only [List.pairwise_cons, List.forall_mem_cons, List.not_mem_nil, false_imp_iff,
      implies_true, and_true, List.Pairwise.nil]
    and_intros
    all_goals exact ⟨fun _ _ => rfl, fun _ _ => rfl⟩

namespace Slots

variable {group : Group α} (slots : Slots group)

theorem setKey_cases (s : α) (entry : String × Value) :
    (∃ slot ∈ slots.all, slot.key = entry.1 ∧ group.setKey s entry = slot.set s entry.2) ∨
    (∀ slot ∈ slots.all, slot.key ≠ entry.1) ∧ group.setKey s entry = .ok s := by
  obtain ⟨field, mem, done⟩ | ⟨unknown, passed⟩ := group.setKey_cases s entry
  · obtain ⟨slot, own, rfl⟩ := List.mem_map.mp (slots.fields_eq ▸ mem)
    exact .inl ⟨slot, own, done⟩
  · exact .inr ⟨fun slot mem => unknown _ (slots.fields_eq ▸ List.mem_map_of_mem mem), passed⟩

section Slot

variable {slot : Slot α} (mem : slot ∈ slots.all)
include mem

theorem mem_fields : slot.toField ∈ group.fields := slots.fields_eq ▸ List.mem_map_of_mem mem

/-- An entry with another key leaves the slot alone. -/
theorem setKey_other {s s' : α} {entry : String × Value} (other : entry.1 ≠ slot.key)
    (done : group.setKey s entry = .ok s') : slot.get s' = slot.get s := by
  obtain ⟨filled, mem', named, set⟩ | ⟨-, passed⟩ := slots.setKey_cases s entry
  · obtain ⟨b, -, rfl⟩ := map_ok_iff.mp (set.symm.trans done)
    have distinct : slot ≠ filled := by
      rintro rfl
      exact other named.symm
    exact (slots.apart.forall mem mem' distinct).left s b
  · obtain rfl := Except.ok.inj (passed.symm.trans done)
    rfl

/-- A run of entries leaves in the slot what the one entry with its key means. -/
theorem given_foldlM {entries : List (String × Value)} (distinct : Distinct entries) {s s' : α}
    (done : entries.foldlM group.setKey s = .ok s') :
    Given slot.means (entries.lookup slot.key) (slot.get s) (slot.get s') := by
  induction entries generalizing s with
  | nil =>
    obtain rfl := Except.ok.inj done
    rfl
  | cons entry entries ih =>
    obtain ⟨name, value⟩ := entry
    obtain ⟨fresh, distinct⟩ := List.nodup_cons.mp distinct
    rw [List.foldlM_cons] at done
    cases first : group.setKey s (name, value) with
    | error fault => simp [first, bind, Except.bind] at done
    | ok next =>
      rw [first] at done
      have rest := ih distinct done
      by_cases same : name = slot.key
      · subst same
        -- No later entry has the key, so the slot keeps what this one puts there.
        have absent : entries.lookup slot.key = none :=
          Option.not_isSome_iff_eq_none.mp (mt Toml.lookup_isSome_iff.mp fresh)
        rw [Group.setKey_field (slots.mem_fields mem)] at first
        obtain ⟨b, read, rfl⟩ := map_ok_iff.mp first
        rw [absent] at rest
        rw [List.lookup_cons_self, Given, rest, slot.get_put]
        exact slot.read_ok_iff.mp read
      · rw [List.lookup_cons, beq_false_of_ne (Ne.symm same), ← slots.setKey_other mem same first]
        exact rest

end Slot

/-- A run of entries of which each is accepted comes to its end. -/
theorem exists_foldlM {entries : List (String × Value)}
    (accepted : ∀ entry ∈ entries, ∀ s, ∃ s', group.setKey s entry = .ok s') (s : α) :
    ∃ s', entries.foldlM group.setKey s = .ok s' := by
  induction entries generalizing s with
  | nil => exact ⟨s, rfl⟩
  | cons entry entries ih =>
    obtain ⟨head, tail⟩ := List.forall_mem_cons.mp accepted
    obtain ⟨next, first⟩ := head s
    obtain ⟨last, rest⟩ := ih tail next
    exact ⟨last, by rw [List.foldlM_cons, first]; exact rest⟩

/-- Entries that the group does not know do not count, wherever they stand. -/
theorem foldlM_filter {keys : List String} (named : ∀ slot ∈ slots.all, slot.key ∈ keys)
    (entries : List (String × Value)) (s : α) :
    (entries.filter fun entry => entry.1 ∈ keys).foldlM group.setKey s =
      entries.foldlM group.setKey s := by
  induction entries generalizing s with
  | nil => rfl
  | cons entry entries ih =>
    rw [List.foldlM_cons]
    by_cases kept : entry.1 ∈ keys
    · simp only [List.filter_cons, kept, decide_true, ↓reduceIte, List.foldlM_cons]
      exact congrArg _ (funext ih)
    · have passed : group.setKey s entry = .ok s := by
        obtain ⟨slot, mem, same, -⟩ | ⟨-, passed⟩ := slots.setKey_cases s entry
        · exact absurd (same ▸ named slot mem) kept
        · exact passed
      simp only [List.filter_cons, kept, decide_false, Bool.false_eq_true, ↓reduceIte, passed]
      exact ih s

/-! What a library makes of the group. -/

variable {library : Library} (lawful : library.Lawful)
include lawful

theorem given {entries : List (String × Value)} (distinct : Distinct entries) {s : α}
    (done : library.group group (.table entries) = .ok s) : ∀ slot ∈ slots.all,
      Given slot.means (entries.lookup slot.key) (slot.get group.defaults) (slot.get s) :=
  fun _ mem => slots.given_foldlM mem distinct (lawful.group_table group distinct ▸ done)

/-- A table is accepted if each slot that it fills is given something with a meaning. -/
theorem exists_group_iff {entries : List (String × Value)} (distinct : Distinct entries) :
    (∃ s, library.group group (.table entries) = .ok s) ↔
      ∀ slot ∈ slots.all, Suits slot.means (entries.lookup slot.key) := by
  constructor
  · rintro ⟨s, done⟩ slot mem value found
    have meant := slots.given lawful distinct done slot mem
    rw [Option.mem_def.mp found] at meant
    exact ⟨slot.get s, meant⟩
  · intro suits
    rw [lawful.group_table group distinct]
    refine exists_foldlM (fun entry mem s => ?_) group.defaults
    obtain ⟨slot, mem', named, set⟩ | ⟨-, passed⟩ := slots.setKey_cases s entry
    · have found : entries.lookup slot.key = some entry.2 :=
        Toml.lookup_of_mem distinct (named ▸ mem)
      obtain ⟨b, meant⟩ := suits slot mem' entry.2 found
      exact ⟨slot.put s b, by rw [set, Field.set, slot.read_ok_iff.mpr meant]; rfl⟩
    · exact ⟨s, passed⟩

theorem group_withKeys {keys : List String} (named : ∀ slot ∈ slots.all, slot.key ∈ keys)
    {value : Value} (keyed : value.Keyed) :
    library.group group (withKeys keys value) = library.group group value := by
  cases value with
  | table entries =>
    have kept : Distinct (entries.filter fun entry => entry.1 ∈ keys) :=
      keyed.distinct.sublist (List.filter_sublist.map Prod.fst)
    rw [withKeys, lawful.group_table group kept, lawful.group_table group keyed.distinct]
    exact slots.foldlM_filter named entries group.defaults
  | _ => rfl

end Slots
end Clickstream.Settings

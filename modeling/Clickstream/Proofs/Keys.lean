import Clickstream.Toml.Document

namespace Clickstream.Toml

inductive Tree.Keyed : Tree → Prop
  | value {value : Value} (keyed : value.Keyed) : Keyed (.value value)
  | table (origin : Origin) {entries : Entries} (distinct : Distinct entries)
      (entries_keyed : ∀ entry ∈ entries, Keyed entry.2) : Keyed (.table origin entries)
  | tables {earlier : List Entries} {last : Entries}
      (distinct : ∀ entries ∈ earlier ++ [last], Distinct entries)
      (entries_keyed : ∀ entries ∈ earlier ++ [last], ∀ entry ∈ entries, Keyed entry.2) :
      Keyed (.tables earlier last)

/-- What every step keeps, a run of steps keeps. -/
theorem foldlM_kept {α β : Type} {P : β → Prop} {step : β → α → Option β} {items : List α}
    (kept : ∀ item ∈ items, ∀ b b', P b → step b item = some b' → P b') {b b' : β} (h : P b)
    (done : items.foldlM step b = some b') : P b' := by
  induction items generalizing b with
  | nil =>
    obtain rfl := Option.some.inj done
    exact h
  | cons item items ih =>
    rw [List.foldlM_cons] at done
    obtain ⟨next, first, rest⟩ := Option.bind_eq_some_iff.mp done
    obtain ⟨head, tail⟩ := List.forall_mem_cons.mp kept
    exact ih tail (head b next h first) rest

/-! Tables under construction. -/

structure Entries.Keyed (entries : Entries) : Prop where
  distinct : Distinct entries
  keyed : ∀ entry ∈ entries, entry.2.Keyed

namespace Entries

variable {entries : Entries} {key : String} {tree : Tree}

theorem Keyed.nil : Keyed [] := ⟨List.nodup_nil, by simp⟩

theorem Keyed.table (h : entries.Keyed) (origin : Origin) : (Tree.table origin entries).Keyed :=
  .table origin h.distinct h.keyed

theorem Keyed.of_table {origin : Origin} (h : (Tree.table origin entries).Keyed) :
    entries.Keyed := by
  cases h with
  | table _ distinct keyed => exact ⟨distinct, keyed⟩

theorem keyed_of_tables {earlier : List Entries} {last : Entries}
    (h : (Tree.tables earlier last).Keyed) : ∀ entries ∈ earlier ++ [last], Keyed entries := by
  cases h with
  | tables distinct keyed => exact fun entries mem => ⟨distinct entries mem, keyed entries mem⟩

theorem tables_keyed {earlier : List Entries} {last : Entries}
    (h : ∀ entries ∈ earlier ++ [last], Keyed entries) : (Tree.tables earlier last).Keyed :=
  .tables (fun entries mem => (h entries mem).distinct) fun entries mem => (h entries mem).keyed

theorem Keyed.lookup (h : entries.Keyed) (found : entries.lookup key = some tree) :
    tree.Keyed := by
  obtain ⟨before, after, rfl, -⟩ := List.lookup_eq_some_iff.mp found
  exact h.keyed (key, tree) (by simp)

/-- A key that is not there yet may be added. -/
theorem Keyed.append (h : entries.Keyed) (absent : entries.lookup key = none)
    (keyed : tree.Keyed) : Keyed (entries ++ [(key, tree)]) := by
  have fresh : key ∉ entries.map Prod.fst := by
    intro mem
    simpa [absent] using lookup_isSome_iff.mpr mem
  constructor
  · simp only [Distinct, List.map_append, List.map_cons, List.map_nil, List.nodup_append]
    refine ⟨h.distinct, by simp, ?_⟩
    rintro name mem _ added rfl
    obtain rfl := List.mem_singleton.mp added
    exact fresh mem
  · intro entry mem
    rcases List.mem_append.mp mem with mem | mem
    · exact h.keyed entry mem
    · obtain rfl := List.mem_singleton.mp mem
      exact keyed

/-- A new value leaves the keys as they are. -/
theorem Keyed.set (h : entries.Keyed) (keyed : tree.Keyed) : Keyed (entries.set key tree) := by
  constructor
  · have keys : (entries.set key tree).map Prod.fst = entries.map Prod.fst := by
      simp only [Entries.set, List.map_map]
      refine List.map_congr_left fun entry _ => ?_
      simp only [Function.comp_apply]
      split <;> rfl
    rw [Distinct, keys]
    exact h.distinct
  · intro entry mem
    obtain ⟨old, found, rfl⟩ := List.mem_map.mp mem
    by_cases same : old.1 = key
    · simpa [same] using keyed
    · simpa [same] using h.keyed old found

theorem Keyed.remove (h : entries.Keyed) : Keyed (entries.remove key) :=
  ⟨h.distinct.sublist (List.filter_sublist.map Prod.fst),
    fun entry mem => h.keyed entry (List.mem_filter.mp mem).1⟩

theorem lookup_remove : (entries.remove key).lookup key = none := by
  rw [List.lookup_eq_none_iff]
  intro entry mem
  have other : entry.1 ≠ key := by simpa using (List.mem_filter.mp mem).2
  simpa using other.symm

/-- What keeps the keys of one table distinct keeps them so at the end of any path. -/
theorem Keyed.change {created : Origin} {act : Origin → Entries → Option Entries}
    (kept : ∀ origin entries entries', Keyed entries → act origin entries = some entries' →
      Keyed entries')
    {path : List String} {origin : Origin} {entries' : Entries} (h : entries.Keyed)
    (changed : change created act path origin entries = some entries') : entries'.Keyed := by
  induction path generalizing origin entries entries' with
  | nil => exact kept origin entries entries' h changed
  | cons key path ih =>
    rw [Entries.change] at changed
    split at changed
    case h_1 absent =>
      -- The rest of the path is made below a table that starts without entries.
      obtain ⟨below, made, rfl⟩ := Option.map_eq_some_iff.mp changed
      exact h.append absent ((ih .nil made).table created)
    case h_2 => contradiction
    case h_3 found =>
      split at changed
      · contradiction
      · obtain ⟨below, made, rfl⟩ := Option.map_eq_some_iff.mp changed
        exact h.set ((ih (.of_table (h.lookup found)) made).table _)
    case h_4 earlier last found =>
      obtain ⟨next, made, rfl⟩ := Option.map_eq_some_iff.mp changed
      have all := keyed_of_tables (h.lookup found)
      refine h.set (tables_keyed fun entries mem => ?_)
      rcases List.mem_append.mp mem with mem | mem
      · exact all entries (List.mem_append_left _ mem)
      · obtain rfl := List.mem_singleton.mp mem
        exact ih (all last (by simp)) made

theorem Keyed.insert {path : List String} {value : Value} {entries' : Entries} (h : entries.Keyed)
    (keyed : value.Keyed) (inserted : entries.insert path key value = some entries') :
    entries'.Keyed := by
  refine h.change (fun origin below below' h added => ?_) inserted
  split at added
  · contradiction
  · split at added
    · contradiction
    case isFalse absent =>
      obtain rfl := Option.some.inj added
      exact h.append (Option.not_isSome_iff_eq_none.mp absent) (.value keyed)

theorem Keyed.insertAll {pairs : List (List String × String × Value)} {entries' : Entries}
    (h : entries.Keyed) (keyed : ∀ pair ∈ pairs, pair.2.2.Keyed)
    (inserted : entries.insertAll pairs = some entries') : entries'.Keyed := by
  refine foldlM_kept (fun pair mem _ _ h step => ?_) h inserted
  exact h.insert (keyed pair mem) step

end Entries

/-! The value of a finished table. -/

theorem toEntries_eq_map (entries : Entries) :
    toEntries entries = entries.map fun (key, tree) => (key, tree.toValue) := by
  induction entries with
  | nil => rfl
  | cons entry entries ih => rw [toEntries, ih, List.map_cons]

theorem toTables_eq_map (tables : List Entries) :
    toTables tables = tables.map fun entries => .table (toEntries entries) := by
  induction tables with
  | nil => rfl
  | cons entries tables ih => rw [toTables, ih, List.map_cons]

/-- A table's keys stay as they are when it is finished. -/
theorem toEntries_keyed {entries : Entries} (distinct : Distinct entries)
    (keyed : ∀ entry ∈ entries, entry.2.toValue.Keyed) :
    (Value.table (toEntries entries)).Keyed := by
  rw [toEntries_eq_map]
  refine .table ?_ ?_
  · rw [Distinct, List.map_map]
    exact distinct
  · intro entry mem
    obtain ⟨old, found, rfl⟩ := List.mem_map.mp mem
    exact keyed old found

theorem Tree.Keyed.toValue {tree : Tree} (h : tree.Keyed) : tree.toValue.Keyed := by
  induction h with
  | value keyed => exact keyed
  | table origin distinct _ ih => exact toEntries_keyed distinct ih
  | @tables earlier last distinct _ ih =>
    have items : toTables earlier ++ [.table (toEntries last)] =
        (earlier ++ [last]).map fun entries => .table (toEntries entries) := by
      rw [toTables_eq_map, List.map_append, List.map_singleton]
    rw [Tree.toValue, items]
    refine .array fun item mem => ?_
    obtain ⟨entries, found, rfl⟩ := List.mem_map.mp mem
    exact toEntries_keyed (distinct entries found) (ih entries found)

theorem Entries.Keyed.toValue {entries : Entries} (h : entries.Keyed) :
    (Value.table (toEntries entries)).Keyed :=
  (h.table .header).toValue

/-! What parsers yield. -/

/-- Whatever the parser reads has the property. -/
def Yields {α : Type} (P : α → Prop) (parser : Parser α) : Prop :=
  ∀ text a rest, parser text = some (a, rest) → P a

namespace Yields

variable {α β : Type} {P : α → Prop} {Q : β → Prop} {parser other : Parser α}

theorem mono {P' : α → Prop} (h : Yields P parser) (imp : ∀ a, P a → P' a) : Yields P' parser :=
  fun text a rest read => imp a (h text a rest read)

theorem any (parser : Parser α) : Yields (fun _ => True) parser := fun _ _ _ _ => trivial

theorem pure {a : α} (h : P a) : Yields P (Pure.pure a) := by
  rintro text _ rest ⟨⟩
  exact h

theorem failure : Yields P (failure : Parser α) := by
  rintro text a rest ⟨⟩

theorem bind {next : α → Parser β} (h : Yields P parser) (after : ∀ a, P a → Yields Q (next a)) :
    Yields Q (parser >>= next) := by
  intro text b rest read
  obtain ⟨⟨a, between⟩, first, second⟩ := Option.bind_eq_some_iff.mp read
  exact after a (h text a between first) between b rest second

/-- What is passed over says nothing. -/
theorem skip {next : α → Parser β} (after : ∀ a, Yields Q (next a)) : Yields Q (parser >>= next) :=
  (any parser).bind fun a _ => after a

theorem map {f : α → β} (h : Yields (fun a => Q (f a)) parser) : Yields Q (f <$> parser) :=
  h.bind fun _ => pure

theorem orElse (h : Yields P parser) (h' : Yields P other) : Yields P (parser <|> other) := by
  intro text a rest read
  change (parser text <|> other text) = some (a, rest) at read
  cases first : parser text with
  | none =>
    rw [first] at read
    exact h' text a rest read
  | some found =>
    rw [first] at read
    exact h text a rest (first.trans read)

theorem option (h : Yields P parser) :
    Yields (fun found => ∀ a ∈ found, P a) (optional parser) :=
  orElse (map (h.mono fun a pa b mem => Option.some.inj mem ▸ pa)) (pure (by simp))

theorem seqLeft (h : Yields P parser) (after : Parser β) : Yields P (parser <* after) := by
  exact h.bind fun a pa => skip fun _ => pure pa

theorem seqRight (before : Parser β) (h : Yields P parser) : Yields P (before *> parser) := by
  exact skip fun _ => h

theorem many (h : Yields P parser) : Yields (fun all => ∀ a ∈ all, P a) (Parser.many parser) := by
  suffices within : ∀ bound, Yields (fun all => ∀ a ∈ all, P a) (Parser.repeatWithin parser bound)
    from fun text => within text text
  intro bound
  induction bound with
  | nil => exact pure (by simp)
  | cons _ bound ih =>
    intro text all rest read
    rw [Parser.repeatWithin] at read
    split at read
    · obtain ⟨rfl, rfl⟩ : all = [] ∧ rest = text := by simpa [eq_comm] using read
      simp
    case h_2 a between first =>
      obtain ⟨⟨tail, _⟩, others, made⟩ := Option.map_eq_some_iff.mp read
      obtain ⟨rfl, rfl⟩ := Prod.mk.inj made
      exact List.forall_mem_cons.mpr ⟨h text a between first, ih between tail _ others⟩

theorem separated (h : Yields P parser) (separator : Char) :
    Yields (fun all => ∀ a ∈ all, P a) (Parser.separated separator parser) :=
  h.bind fun _ pa => (many (seqRight _ h)).bind fun _ rest =>
    pure (List.forall_mem_cons.mpr ⟨pa, rest⟩)

end Yields

/-! Documents. -/

open Clickstream.Toml.Parser

theorem pair_yields {value : Parser Value} (h : Yields Value.Keyed value) :
    Yields (fun pair => pair.2.2.Keyed) (pair value) :=
  .skip fun _ => .skip fun _ => .skip fun _ => h.bind fun _ keyed => .pure keyed

theorem array_yields {value : Parser Value} (h : Yields Value.Keyed value) :
    Yields Value.Keyed (array value) := by
  have items : Yields (fun items => ∀ item ∈ items, Value.Keyed item)
      (do
        let items ← separated ',' (gap *> value <* gap)
        _ ← optional (char ',')
        return items) :=
    ((h.seqRight gap).seqLeft gap |>.separated ',').bind fun _ keyed => .skip fun _ => .pure keyed
  refine .skip fun _ => items.option.bind fun found keyed => .skip fun _ => .skip fun _ => .pure ?_
  cases found with
  | none => exact .array (by simp)
  | some items => exact .array (keyed items rfl)

theorem inlineTable_yields {value : Parser Value} (h : Yields Value.Keyed value) :
    Yields Value.Keyed (inlineTable value) := by
  refine .skip fun _ => (((pair_yields h).seqLeft space).separated ',').option.bind
    fun found keyed => .skip fun _ => .skip fun _ => ?_
  have given : ∀ pair ∈ found.getD [], pair.2.2.Keyed := by
    cases found with
    | none => simp
    | some pairs => exact keyed pairs rfl
  split
  case h_1 entries inserted =>
    exact .pure (Entries.Keyed.nil.insertAll given inserted).toValue
  case h_2 => exact .failure

theorem scalar_yields : Yields Value.Keyed scalar :=
  .orElse (.map ((Yields.any string).mono fun text _ => .string text)) <|
  .orElse (.map ((Yields.any boolean).mono fun flag _ => .boolean flag)) <|
  .orElse (.seqRight dateTime (.pure .dateTime)) <|
  .orElse (.map ((Yields.any float).mono fun bits _ => .float bits))
    (.map ((Yields.any integer).mono fun n _ => .integer n))

theorem value_yields (depth : Nat) : Yields Value.Keyed (value depth) := by
  induction depth with
  | zero => exact scalar_yields
  | succ depth ih =>
    exact .orElse (array_yields ih) (.orElse (inlineTable_yields ih) scalar_yields)

theorem pairLine_yields : Yields (fun pair => pair.2.2.Keyed) pairLine :=
  ((pair_yields (value_yields _)).seqLeft lineEnd).seqLeft emptyLines

theorem headedSection_yields :
    Yields (fun part => ∀ pair ∈ part.pairs, pair.2.2.Keyed) headedSection :=
  .skip fun _ => pairLine_yields.many.bind fun _ keyed => .pure keyed

theorem sections_yields :
    Yields (fun found => (∀ pair ∈ found.1, pair.2.2.Keyed) ∧
      ∀ part ∈ found.2, ∀ pair ∈ part.pairs, pair.2.2.Keyed) sections :=
  .skip fun _ => .skip fun _ => pairLine_yields.many.bind fun _ pairs =>
    headedSection_yields.many.bind fun _ parts => .skip fun _ => .pure ⟨pairs, parts⟩

theorem Section.addTo_keyed {part : Section} (keyed : ∀ pair ∈ part.pairs, pair.2.2.Keyed)
    {origin : Origin} {entries entries' : Entries} (h : entries.Keyed)
    (added : part.addTo origin entries = some entries') : entries'.Keyed := by
  have fresh {below : Entries} (made : Entries.insertAll [] part.pairs = some below) :
      below.Keyed := Entries.Keyed.nil.insertAll keyed made
  unfold Section.addTo at added
  split at added
  case h_1 absent =>
    obtain ⟨below, made, done⟩ := Option.bind_eq_some_iff.mp added
    obtain rfl := Option.some.inj done
    exact h.append absent ((fresh made).table .header)
  case h_2 old _ found =>
    obtain ⟨below, made, done⟩ := Option.bind_eq_some_iff.mp added
    obtain rfl := Option.some.inj done
    have grown := (Entries.Keyed.of_table (h.lookup found)).insertAll keyed made
    exact h.remove.append Entries.lookup_remove (grown.table .header)
  case h_3 absent =>
    obtain ⟨last, made, done⟩ := Option.bind_eq_some_iff.mp added
    obtain rfl := Option.some.inj done
    refine h.append absent (Entries.tables_keyed fun entries mem => ?_)
    obtain rfl := List.mem_singleton.mp mem
    exact fresh made
  case h_4 earlier last _ found =>
    obtain ⟨next, made, done⟩ := Option.bind_eq_some_iff.mp added
    obtain rfl := Option.some.inj done
    refine h.set (Entries.tables_keyed fun entries mem => ?_)
    rcases List.mem_append.mp mem with mem | mem
    · exact Entries.keyed_of_tables (h.lookup found) entries mem
    · obtain rfl := List.mem_singleton.mp mem
      exact fresh made
  case h_5 => contradiction

theorem addAll_keyed {parts : List Section}
    (keyed : ∀ part ∈ parts, ∀ pair ∈ part.pairs, pair.2.2.Keyed) {entries entries' : Entries}
    (h : entries.Keyed)
    (added : parts.foldlM
      (fun entries part => Entries.change .path part.addTo part.path .header entries) entries =
        some entries') : entries'.Keyed := by
  refine foldlM_kept (fun part mem _ _ h step => ?_) h added
  exact h.change (fun _ _ _ => Section.addTo_keyed (keyed part mem)) step

/-- However a document is written, no table in it gives a key twice. -/
theorem parse_keyed {text : String} {entries : List (String × Value)}
    (parsed : parse text = some entries) : (Value.table entries).Keyed := by
  rw [parse] at parsed
  obtain ⟨⟨⟨pairs, parts⟩, rest⟩, read, parsed⟩ := Option.bind_eq_some_iff.mp parsed
  obtain ⟨first, inserted, parsed⟩ := Option.bind_eq_some_iff.mp parsed
  obtain ⟨last, added, done⟩ := Option.bind_eq_some_iff.mp parsed
  obtain rfl := Option.some.inj done
  obtain ⟨pairs_keyed, parts_keyed⟩ := sections_yields _ _ _ read
  have before := Entries.Keyed.nil.insertAll pairs_keyed inserted
  exact (addAll_keyed parts_keyed before added).toValue

end Clickstream.Toml

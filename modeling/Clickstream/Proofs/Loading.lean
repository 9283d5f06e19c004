import Clickstream.Proofs.Durations
import Clickstream.Proofs.Sections
import Clickstream.Proofs.Standard

namespace Clickstream.Settings

open Toml (Value Distinct)

variable {library : Library} {entries : List (String × Value)}

def slots (library : Library) : Slots library.settings where
  all := [
    { β := FileStrategy, key := "file_strategy", read := library.group library.fileStrategy,
      means := fun value s => library.group library.fileStrategy value = .ok s,
      get := fileStrategy, put := fun s b => { s with fileStrategy := b },
      read_ok_iff := Iff.rfl, get_put := fun _ _ => rfl },
    { β := Script, key := "javascript", read := library.group library.script,
      means := fun value s => library.group library.script value = .ok s,
      get := script, put := fun s b => { s with script := b },
      read_ok_iff := Iff.rfl, get_put := fun _ _ => rfl }]

/-! Sections. -/

theorem below_distinct (keyed : (Value.table entries).Keyed) (name : String) :
    Distinct (below entries name) := by
  unfold below
  split
  case h_1 found => exact (keyed.lookup found).distinct
  case h_2 => exact List.nodup_nil

section Section

variable {α : Type} {part : Group α} {name : String} (lawful : library.Lawful)
  (table : ∀ value ∈ entries.lookup name, ∃ below, value = .table below)
include lawful table

/-- A section that is left out is one without entries. -/
theorem given_section_iff {s : α} :
    Given (fun value s => library.group part value = .ok s) (entries.lookup name) part.defaults s ↔
      library.group part (.table (below entries name)) = .ok s := by
  unfold below
  cases found : entries.lookup name with
  | none =>
    simp only [Given, lawful.group_empty, Except.ok.injEq]
    exact eq_comm
  | some value =>
    obtain ⟨inner, rfl⟩ := table value found
    exact Iff.rfl

theorem suits_section_iff :
    Suits (fun value s => library.group part value = .ok s) (entries.lookup name) ↔
      ∃ s, library.group part (.table (below entries name)) = .ok s := by
  unfold below
  cases found : entries.lookup name with
  | none => simp [Suits, lawful.group_empty]
  | some value =>
    obtain ⟨inner, rfl⟩ := table value found
    simp [Suits]

end Section

theorem Sectioned.fileStrategy (tables : Sectioned entries) :
    ∀ value ∈ entries.lookup "file_strategy", ∃ below, value = .table below :=
  tables _ (.head _)

theorem Sectioned.script (tables : Sectioned entries) :
    ∀ value ∈ entries.lookup "javascript", ∃ below, value = .table below :=
  tables _ (.tail _ (.head _))

section Table

variable (lawful : library.Lawful) (keyed : (Value.table entries).Keyed)
  (tables : Sectioned entries)
include lawful keyed tables

theorem exists_group_iff :
    (∃ s, library.group library.settings (.table entries) = .ok s) ↔ WellTyped entries := by
  rw [(slots library).exists_group_iff lawful keyed.distinct]
  simp only [slots, List.forall_mem_cons]
  rw [suits_section_iff lawful tables.fileStrategy, suits_section_iff lawful tables.script,
    FileStrategy.exists_group_iff lawful (below_distinct keyed _),
    Script.exists_group_iff lawful (below_distinct keyed _)]
  constructor
  · rintro ⟨strategy, script, -⟩
    exact ⟨strategy, script⟩
  · rintro ⟨strategy, script⟩
    exact ⟨strategy, script, by simp⟩

theorem describes_of_group {s : Settings}
    (done : library.group library.settings (.table entries) = .ok s) : Describes entries s := by
  have given := (slots library).given lawful keyed.distinct done
  simp only [slots, List.forall_mem_cons] at given
  obtain ⟨strategy, script, -⟩ := given
  have strategy := (given_section_iff lawful tables.fileStrategy).mp strategy
  have script := (given_section_iff lawful tables.script).mp script
  exact ⟨FileStrategy.describes_of_group lawful (below_distinct keyed _) strategy,
    Script.describes_of_group lawful (below_distinct keyed _) script⟩

end Table

/-! Unknown keys. -/

/-- What is left of an entry does what the entry does. -/
theorem setKey_known (lawful : library.Lawful) (s : Settings) (name : String) {value : Value}
    (keyed : value.Keyed) :
    match sections.lookup name with
    | none => library.settings.setKey s (name, value) = .ok s
    | some keys =>
      library.settings.setKey s (name, withKeys keys value) =
        library.settings.setKey s (name, value) := by
  by_cases strategy : name = "file_strategy"
  · subst strategy
    have found : sections.lookup "file_strategy" = some FileStrategy.keys := rfl
    have own := Group.setKey_field ((slots library).mem_fields (.head _)) s
    simp only [found, own, Field.set, FileStrategy.group_known lawful keyed]
  by_cases script : name = "javascript"
  · subst script
    have found : sections.lookup "javascript" = some Script.keys := rfl
    have own := Group.setKey_field ((slots library).mem_fields (.tail _ (.head _))) s
    simp only [found, own, Field.set, Script.group_known lawful keyed]
  have absent : sections.lookup name = none := by
    simp only [sections, List.lookup_cons, beq_false_of_ne strategy, beq_false_of_ne script,
      List.lookup_nil]
  obtain ⟨slot, mem, named, -⟩ | ⟨-, passed⟩ := (slots library).setKey_cases s (name, value)
  · simp only [slots, List.mem_cons, List.not_mem_nil, or_false] at mem
    obtain rfl | rfl := mem
    · exact absurd named.symm strategy
    · exact absurd named.symm script
  · rw [absent]
    exact passed

theorem foldlM_known (lawful : library.Lawful) (keyed : ∀ entry ∈ entries, entry.2.Keyed)
    (s : Settings) : (known entries).foldlM library.settings.setKey s =
      entries.foldlM library.settings.setKey s := by
  induction entries generalizing s with
  | nil => rfl
  | cons entry entries ih =>
    obtain ⟨name, value⟩ := entry
    obtain ⟨first, rest⟩ := List.forall_mem_cons.mp keyed
    have step := setKey_known lawful s name first
    rw [List.foldlM_cons]
    cases found : sections.lookup name with
    | none =>
      rw [found] at step
      simp only [known, List.filterMap_cons, found, Option.map_none, step]
      exact ih rest s
    | some keys =>
      rw [found] at step
      simp only [known, List.filterMap_cons, found, Option.map_some, List.foldlM_cons, step]
      exact congrArg _ (funext (ih rest))

/-- What is kept of an entry keeps its key. -/
theorem known_distinct (distinct : Distinct entries) : Distinct (known entries) := by
  refine distinct.sublist ?_
  induction entries with
  | nil => exact .slnil
  | cons entry entries ih =>
    have rest := ih (List.nodup_cons.mp distinct).2
    cases found : sections.lookup entry.1 with
    | none =>
      rw [known, List.filterMap_cons_none (by simp [found])]
      exact rest.cons entry.1
    | some keys =>
      rw [known, List.filterMap_cons_some (by simp [found]; rfl)]
      exact rest.cons_cons entry.1

theorem group_known (lawful : library.Lawful) (keyed : (Value.table entries).Keyed) :
    library.group library.settings (.table (known entries)) =
      library.group library.settings (.table entries) := by
  rw [lawful.group_table _ (known_distinct keyed.distinct), lawful.group_table _ keyed.distinct]
  exact foldlM_known lawful (fun _ => keyed.entry) library.settings.defaults

/-! The whole of a document. -/

theorem ofText_of_parse {text : String} (parsed : library.parse text = some entries) :
    library.ofText text =
      (library.group library.settings (.table entries)).mapError .setting >>=
        fun s => s.validate.map fun _ => s := by
  simp only [Library.ofText, Library.readGroup, parsed]
  rfl

section Document

variable {text : String} (lawful : library.Lawful) (parsed : library.parse text = some entries)
  (tables : Sectioned entries)
include lawful parsed tables

/-- The types are looked at first, then the name. -/
theorem ofText_cases :
    (¬ WellTyped entries ∧ ∃ fault, library.ofText text = .error (.setting fault)) ∨
    WellTyped entries ∧ ∃ s, Describes entries s ∧
      s.script.name = Script.nameIn (below entries "javascript") ∧
      (Script.IsFile s.script.name ∧ library.ofText text = .ok s ∨
        ¬ Script.IsFile s.script.name ∧
          library.ofText text = .error (.scriptName s.script.name)) := by
  have keyed := lawful.parse_keyed parsed
  have accepted := exists_group_iff lawful keyed tables
  rw [ofText_of_parse parsed]
  cases read : library.group library.settings (.table entries) with
  | error fault =>
    have untyped : ¬ WellTyped entries := by
      intro typed
      obtain ⟨s, done⟩ := accepted.mpr typed
      exact nomatch read.symm.trans done
    exact .inl ⟨untyped, fault, rfl⟩
  | ok s =>
    have described := describes_of_group lawful keyed tables read
    refine .inr ⟨accepted.mp ⟨s, read⟩, s, described, described.script.name_eq, ?_⟩
    rw [← Script.isFileName_iff]
    change _ ∧ s.validate.map _ = _ ∨ _ ∧ s.validate.map _ = _
    rw [validate]
    cases Script.isFileName s.script.name with
    | true => exact .inl ⟨rfl, rfl⟩
    | false => exact .inr ⟨by decide, rfl⟩

theorem ofText_ok_iff :
    (∃ s, library.ofText text = .ok s) ↔
      WellTyped entries ∧ Script.IsFile (Script.nameIn (below entries "javascript")) := by
  obtain ⟨untyped, fault, refused⟩ | ⟨typed, s, -, named, ⟨file, done⟩ | ⟨other, refused⟩⟩ :=
    ofText_cases lawful parsed tables
  · simp [refused, untyped]
  · simp [done, typed, ← named, file]
  · simp [refused, ← named, other]

theorem describes_of_ofText {s : Settings} (done : library.ofText text = .ok s) :
    Describes entries s := by
  obtain ⟨-, fault, refused⟩ | ⟨-, read, described, -, ⟨-, ok⟩ | ⟨-, refused⟩⟩ :=
    ofText_cases lawful parsed tables
  · exact nomatch done.symm.trans refused
  · obtain rfl := Except.ok.inj (done.symm.trans ok)
    exact described
  · exact nomatch done.symm.trans refused

/-- A value of a wrong type counts before a bad name. -/
theorem ofText_untyped (untyped : ¬ WellTyped entries) :
    ∃ error, library.ofText text = .error error ∧ error.code = "config.parse" := by
  obtain ⟨-, fault, refused⟩ | ⟨typed, -⟩ := ofText_cases lawful parsed tables
  · exact ⟨_, refused, rfl⟩
  · exact absurd typed untyped

theorem ofText_misnamed (typed : WellTyped entries)
    (other : ¬ Script.IsFile (Script.nameIn (below entries "javascript"))) :
    ∃ error, library.ofText text = .error error ∧ error.code = "config.invalid" := by
  obtain ⟨untyped, -⟩ | ⟨-, s, -, named, ⟨file, -⟩ | ⟨-, refused⟩⟩ :=
    ofText_cases lawful parsed tables
  · exact absurd typed untyped
  · exact absurd (named ▸ file) other
  · exact ⟨_, refused, rfl⟩

end Document

theorem ofText_known (lawful : library.Lawful) {text other : String}
    {entries' : List (String × Value)} (parsed : library.parse text = some entries)
    (parsed' : library.parse other = some entries') (same : known entries' = known entries) :
    library.ofText other = library.ofText text := by
  rw [ofText_of_parse parsed', ofText_of_parse parsed,
    ← group_known lawful (lawful.parse_keyed parsed'), same,
    group_known lawful (lawful.parse_keyed parsed)]

/-- Each call tells the log one thing: how it has ended. -/
theorem load_eq (library : Library) (text : String) :
    library.load text = (library.ofText text, [match library.ofText text with
      | .ok s => .loaded s.summary
      | .error error => .rejected error.code]) := by
  unfold Library.load
  cases library.ofText text <;> rfl

theorem duration_number (lawful : library.Lawful) {n : Int64} (positive : 0 ≤ n.toInt) :
    ∃ duration, library.duration (.integer n) = .ok duration ∧
      library.duration (.string (toString n.toInt)) = .ok duration ∧
      library.duration (.string s!"{n.toInt} ms") = .ok duration := by
  have same : n.toInt = (n.toNatClampNeg : Int) := (Int.toNat_of_nonneg positive).symm
  simp only [lawful.duration_integer, lawful.duration_string]
  refine ⟨.ofMillis n.toNatClampNeg (millis_lt n), if_neg (nonneg_iff.mpr positive), ?_, ?_⟩
  · have spelled : toString n.toInt = toString n.toNatClampNeg := by rw [same]; rfl
    exact mapError_ok_iff.mpr (spelled.symm ▸ Duration.parse_toString (millis_lt n))
  · have spelled : s!"{n.toInt} ms" = s!"{n.toNatClampNeg} ms" := by rw [same]; rfl
    exact mapError_ok_iff.mpr (spelled.symm ▸ Duration.parse_toString_ms (millis_lt n))

/-- Whatever the libraries are, loading is settled by what the document's table means: what is
accepted, what the settings are then, which fault counts, and that nothing else in the table
matters. -/
theorem load_settled (lawful : library.Lawful) (text : String) :
    (∃ event, (library.load text).2 = [event] ∧
      event.level = match (library.load text).1 with
        | .ok _ => .info
        | .error _ => .warn) ∧
    (∀ entries, library.parse text = some entries → Sectioned entries →
      ((∃ s, (library.load text).1 = .ok s) ↔
        WellTyped entries ∧ Script.IsFile (Script.nameIn (below entries "javascript"))) ∧
      (∀ s, (library.load text).1 = .ok s → Describes entries s) ∧
      (¬ WellTyped entries →
        ∃ error, (library.load text).1 = .error error ∧ error.code = "config.parse") ∧
      (WellTyped entries → ¬ Script.IsFile (Script.nameIn (below entries "javascript")) →
        ∃ error, (library.load text).1 = .error error ∧ error.code = "config.invalid") ∧
      ∀ other entries', library.parse other = some entries' → known entries' = known entries →
        library.load other = library.load text) ∧
    ∀ n : Int64, 0 ≤ n.toInt → ∃ duration, library.duration (.integer n) = .ok duration ∧
      library.duration (.string (toString n.toInt)) = .ok duration ∧
      library.duration (.string s!"{n.toInt} ms") = .ok duration := by
  simp only [load_eq]
  refine ⟨⟨_, rfl, ?_⟩, fun entries parsed tables => ?_, fun n => duration_number lawful⟩
  · cases library.ofText text <;> rfl
  · refine ⟨ofText_ok_iff lawful parsed tables, fun s => describes_of_ofText lawful parsed tables,
      ofText_untyped lawful parsed tables, ofText_misnamed lawful parsed tables,
      fun other entries' parsed' same => ?_⟩
    rw [ofText_known lawful parsed parsed' same]

/-- A number for a duration, a key that is not known, and a name. -/
def partly : String :=
  "[file_strategy]\nroll_every = 1500\nowner = 7\n[javascript]\nname = \"a-1.js\"\n"

def partlyEntries : List (String × Value) := [
  ("file_strategy", .table [("roll_every", .integer 1500), ("owner", .integer 7)]),
  ("javascript", .table [("name", .string "a-1.js")])]

theorem load_settled_partly : ∃ s, (Library.standard.load partly).1 = .ok s ∧
    s.fileStrategy.rollEvery.nanos = 1_500_000_000 ∧ s.script.name = "a-1.js" := by
  -- Plain reduction of the parser unfolds far too much, also on a short text.
  have parsed : Library.standard.parse partly = some partlyEntries := by cbv
  have tables : Sectioned partlyEntries := by
    simp [Sectioned, sections, partlyEntries, List.lookup_cons]
  have strategy : below partlyEntries "file_strategy" =
      [("roll_every", .integer 1500), ("owner", .integer 7)] := rfl
  have script : below partlyEntries "javascript" = [("name", .string "a-1.js")] := rfl
  have typed : WellTyped partlyEntries := by
    refine ⟨strategy ▸ ⟨?_, ?_, ?_, ?_, ?_⟩, script ▸ ⟨?_, ?_, ?_, ?_⟩⟩
    case refine_1 =>
      rintro _ ⟨⟩
      exact ⟨.ofMillis 1500 (by decide), .millis (by decide) rfl⟩
    case refine_6 =>
      rintro _ ⟨⟩
      exact ⟨_, .string _⟩
    all_goals rintro _ ⟨⟩
  have file : Script.IsFile (Script.nameIn (below partlyEntries "javascript")) :=
    ⟨['a', '-', '1'], by decide, by simp [Script.IsPlain], by decide⟩
  obtain ⟨-, classified, -⟩ := load_settled Library.standard_lawful partly
  obtain ⟨accepted, described, -⟩ := classified partlyEntries parsed tables
  obtain ⟨s, done⟩ := accepted.mpr ⟨typed, file⟩
  obtain ⟨fileStrategy, named⟩ := described s done
  rw [strategy] at fileStrategy
  rw [script] at named
  refine ⟨s, done, ?_, ?_⟩
  · cases fileStrategy.rollEvery with
    | millis _ same => exact same
  · exact (Except.ok.inj (readText_ok_iff.mpr named.name)).symm

end Clickstream.Settings

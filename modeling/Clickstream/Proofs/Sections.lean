import Clickstream.Proofs.Groups
import Mathlib

namespace Clickstream

open Toml (Value Distinct)

namespace Settings

/-! Durations. -/

theorem nonneg_iff {n : Int64} : ¬ n < 0 ↔ 0 ≤ n.toInt := by
  rw [Int64.lt_iff_toInt_lt, Int64.toInt_zero, Int.not_lt]

/-- A number means the same whether it comes with a sign or without. -/
theorem visit_unsigned {n : Int64} (positive : 0 ≤ n.toInt) :
    durationVisitor.unsigned n.toUInt64 = durationVisitor.signed n := by
  have same : n.toUInt64.toNat = n.toNatClampNeg :=
    Int64.toNat_toUInt64_of_le (Int64.le_iff_toInt_le.mpr positive)
  simp only [durationVisitor, if_neg (nonneg_iff.mpr positive), same]

namespace Library.Lawful

variable {library : Library} (lawful : library.Lawful)
include lawful

theorem duration_string (text : String) :
    library.duration (.string text) = (Duration.parse text).mapError .duration :=
  lawful.visit_string durationVisitor text

theorem duration_integer (n : Int64) :
    library.duration (.integer n) = durationVisitor.signed n := by
  obtain signed | ⟨positive, unsigned⟩ := lawful.visit_integer durationVisitor n
  · exact signed
  · exact unsigned.trans (visit_unsigned positive)

theorem duration_ok_iff {value : Value} {duration : Duration} :
    library.duration value = .ok duration ↔ IsDuration value duration := by
  constructor
  · intro read
    obtain ⟨text, rfl⟩ | ⟨n, rfl⟩ := lawful.visit_other read
    · exact .text (mapError_ok_iff.mp (lawful.duration_string text ▸ read))
    · rw [lawful.duration_integer] at read
      by_cases negative : n < 0
      · exact nomatch (if_pos negative).symm.trans read
      · obtain rfl := Except.ok.inj ((if_neg negative).symm.trans read)
        exact .millis (nonneg_iff.mp negative) rfl
  · intro meant
    cases meant with
    | text read => exact (lawful.duration_string _).trans (mapError_ok_iff.mpr read)
    | @millis n duration positive same =>
      obtain ⟨nanos, fits⟩ := duration
      obtain rfl : nanos = _ := same
      exact (lawful.duration_integer n).trans (if_neg (nonneg_iff.mpr positive))

end Library.Lawful

end Settings

open Settings

variable {library : Library} {entries : List (String × Value)}

namespace FileStrategy

def slots (lawful : library.Lawful) : Slots library.fileStrategy where
  all := [
    { β := Duration, key := "roll_every", read := library.duration, means := IsDuration,
      get := rollEvery, put := fun s b => { s with rollEvery := b },
      read_ok_iff := lawful.duration_ok_iff, get_put := fun _ _ => rfl },
    { β := Nat, key := "sync_file_after_records", read := library.count, means := IsCount,
      get := syncAfterRecords, put := fun s b => { s with syncAfterRecords := b },
      read_ok_iff := lawful.count_ok_iff, get_put := fun _ _ => rfl },
    { β := Duration, key := "sync_file_after_duration", read := library.duration,
      means := IsDuration, get := syncAfterDuration,
      put := fun s b => { s with syncAfterDuration := b },
      read_ok_iff := lawful.duration_ok_iff, get_put := fun _ _ => rfl },
    { β := Directory, key := "working_dir", read := library.directory, means := IsDirectory,
      get := workingDir, put := fun s b => { s with workingDir := b },
      read_ok_iff := lawful.directory_ok_iff, get_put := fun _ _ => rfl },
    { β := Directory, key := "publish_dir", read := library.directory, means := IsDirectory,
      get := publishDir, put := fun s b => { s with publishDir := b },
      read_ok_iff := lawful.directory_ok_iff, get_put := fun _ _ => rfl }]

theorem exists_group_iff (lawful : library.Lawful) (distinct : Distinct entries) :
    (∃ s, library.group library.fileStrategy (.table entries) = .ok s) ↔ WellTyped entries := by
  rw [(slots lawful).exists_group_iff lawful distinct]
  simp only [slots, List.forall_mem_cons]
  constructor
  · rintro ⟨rollEvery, records, duration, working, publish, -⟩
    exact ⟨rollEvery, records, duration, working, publish⟩
  · rintro ⟨rollEvery, records, duration, working, publish⟩
    exact ⟨rollEvery, records, duration, working, publish, by simp⟩

theorem describes_of_group (lawful : library.Lawful) (distinct : Distinct entries)
    {s : FileStrategy} (done : library.group library.fileStrategy (.table entries) = .ok s) :
    s.Describes entries := by
  have given := (slots lawful).given lawful distinct done
  simp only [slots, List.forall_mem_cons] at given
  obtain ⟨rollEvery, records, duration, working, publish, -⟩ := given
  exact ⟨rollEvery, records, duration, working, publish⟩

theorem group_known (lawful : library.Lawful) {value : Value} (keyed : value.Keyed) :
    library.group library.fileStrategy (withKeys keys value) =
      library.group library.fileStrategy value :=
  (slots lawful).group_withKeys lawful (by simp [slots, keys]) keyed

end FileStrategy

namespace Script

def slots (lawful : library.Lawful) : Slots library.script where
  all := [
    { β := String, key := "name", read := library.text, means := IsText,
      get := name, put := fun s b => { s with name := b },
      read_ok_iff := lawful.text_ok_iff, get_put := fun _ _ => rfl },
    { β := Bool, key := "logging", read := library.flag, means := IsFlag,
      get := logging, put := fun s b => { s with logging := b },
      read_ok_iff := lawful.flag_ok_iff, get_put := fun _ _ => rfl },
    { β := Bool, key := "debug", read := library.flag, means := IsFlag,
      get := debug, put := fun s b => { s with debug := b },
      read_ok_iff := lawful.flag_ok_iff, get_put := fun _ _ => rfl },
    { β := Bool, key := "auto_page_view_event", read := library.flag, means := IsFlag,
      get := autoPageViewEvent, put := fun s b => { s with autoPageViewEvent := b },
      read_ok_iff := lawful.flag_ok_iff, get_put := fun _ _ => rfl }]

theorem exists_group_iff (lawful : library.Lawful) (distinct : Distinct entries) :
    (∃ s, library.group library.script (.table entries) = .ok s) ↔ WellTyped entries := by
  rw [(slots lawful).exists_group_iff lawful distinct]
  simp only [slots, List.forall_mem_cons]
  constructor
  · rintro ⟨name, logging, debug, automatic, -⟩
    exact ⟨name, logging, debug, automatic⟩
  · rintro ⟨name, logging, debug, automatic⟩
    exact ⟨name, logging, debug, automatic, by simp⟩

theorem describes_of_group (lawful : library.Lawful) (distinct : Distinct entries) {s : Script}
    (done : library.group library.script (.table entries) = .ok s) : s.Describes entries := by
  have given := (slots lawful).given lawful distinct done
  simp only [slots, List.forall_mem_cons] at given
  obtain ⟨name, logging, debug, automatic, -⟩ := given
  exact ⟨name, logging, debug, automatic⟩

theorem group_known (lawful : library.Lawful) {value : Value} (keyed : value.Keyed) :
    library.group library.script (withKeys keys value) = library.group library.script value :=
  (slots lawful).group_withKeys lawful (by simp [slots, keys]) keyed

/-- What follows from the name that is given, or from the default. -/
theorem Describes.name_eq {s : Script} (h : s.Describes entries) : s.name = nameIn entries := by
  have name := h.name
  unfold nameIn
  cases found : entries.lookup "name" with
  | none =>
    rw [found] at name
    exact name
  | some value =>
    rw [found] at name
    cases name with
    | string text => rfl

theorem isNameChar_iff {c : Char} : isNameChar c = true ↔ IsPlain c := by
  simp [isNameChar, IsPlain, Char.isAlphanum, Char.isAlpha, Char.isUpper, Char.isLower,
    Char.isDigit, Char.le_def, or_assoc]

/-- The check looks at a name from its end. -/
theorem isFileName_iff {name : String} : isFileName name = true ↔ IsFile name := by
  simp only [isFileName, Bool.and_eq_true, beq_iff_eq, Bool.not_eq_true', List.isEmpty_eq_false_iff,
    List.all_eq_true]
  constructor
  · rintro ⟨⟨ending, some⟩, plain⟩
    have split := List.take_append_drop 3 name.toList.reverse
    rw [ending] at split
    refine ⟨(name.toList.reverse.drop 3).reverse, by simpa using some, fun c mem => ?_, ?_⟩
    · exact isNameChar_iff.mp (plain c (List.mem_reverse.mp mem))
    · rw [← List.reverse_reverse name.toList, ← split]
      simp
  · rintro ⟨stem, some, plain, spelled⟩
    rw [spelled, List.reverse_append]
    refine ⟨⟨rfl, by simpa using some⟩, fun c mem => isNameChar_iff.mpr (plain c ?_)⟩
    simpa using mem

end Script
end Clickstream

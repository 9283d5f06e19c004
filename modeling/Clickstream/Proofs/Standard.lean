import Clickstream.Proofs.Groups
import Clickstream.Proofs.Keys

/-! What the collector runs with does what is relied on. -/

namespace Clickstream.Settings

open Toml (Value)

theorem readCount_ok_iff {value : Value} {count : Nat} :
    readCount value = .ok count ↔ IsCount value count := by
  constructor
  · intro read
    cases value with
    | integer n =>
      rw [readCount] at read
      split at read
      case isTrue range =>
        obtain rfl := Except.ok.inj read
        have same : (n.toNatClampNeg : Int) = n.toInt := Int.toNat_of_nonneg range.1
        exact .integer same.symm (by omega)
      case isFalse => contradiction
    | _ => contradiction
  · rintro ⟨same, small⟩
    rename_i n
    have back : n.toNatClampNeg = count := by
      rw [Int64.toNatClampNeg, same, Int.toNat_natCast]
    rw [readCount, if_pos (by omega), back]

theorem readDirectory_ok_iff {value : Value} {directory : Directory} :
    readDirectory value = .ok directory ↔ IsDirectory value directory := by
  constructor
  · intro read
    cases value with
    | string text =>
      obtain rfl := Except.ok.inj read
      exact .string text
    | _ => contradiction
  · rintro ⟨text⟩
    rfl

theorem readText_ok_iff {value : Value} {text : String} :
    readText value = .ok text ↔ IsText value text := by
  constructor
  · intro read
    cases value with
    | string text =>
      obtain rfl := Except.ok.inj read
      exact .string text
    | _ => contradiction
  · rintro ⟨text⟩
    rfl

theorem readFlag_ok_iff {value : Value} {flag : Bool} :
    readFlag value = .ok flag ↔ IsFlag value flag := by
  constructor
  · intro read
    cases value with
    | boolean flag =>
      obtain rfl := Except.ok.inj read
      exact .boolean flag
    | _ => contradiction
  · rintro ⟨flag⟩
    rfl

variable {α : Type} {group : Group α} {entries : List (String × Value)}

theorem Group.read_append (entry : String × Value) :
    group.read (.table (entries ++ [entry])) =
      group.read (.table entries) >>= (group.setKey · entry) := by
  simp only [read, List.foldlM_append, List.foldlM_cons, List.foldlM_nil, bind_pure]

theorem Visitor.read_other {visitor : Visitor α} {value : Value} {a : α}
    (done : visitor.read value = .ok a) :
    (∃ text, value = .string text) ∨ ∃ n, value = .integer n := by
  cases value with
  | string text => exact .inl ⟨text, rfl⟩
  | integer n => exact .inr ⟨n, rfl⟩
  | _ => contradiction

theorem Library.standard_lawful : Library.standard.Lawful where
  parse_keyed := Toml.parse_keyed
  count_ok_iff := readCount_ok_iff
  directory_ok_iff := readDirectory_ok_iff
  text_ok_iff := readText_ok_iff
  flag_ok_iff := readFlag_ok_iff
  visit_string _ _ := rfl
  visit_integer _ _ := .inl rfl
  visit_other := Visitor.read_other
  group_empty _ := rfl
  group_field mem _ :=
    (Group.read_append _).trans (bind_congr fun s => Group.setKey_field mem s _)
  group_unknown unknown _ :=
    (Group.read_append _).trans ((bind_congr (Group.setKey_unknown unknown)).trans (bind_pure _))

end Clickstream.Settings

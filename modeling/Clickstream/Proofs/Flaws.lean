import Clickstream.Fault
import Clickstream.Proofs.Misfits
import Clickstream.Record
import Mathlib.Data.List.Lex
import Mathlib.Data.List.Nodup

namespace Clickstream

namespace Schema

/-- What is asked of a node on its own. -/
def Sound : Schema → Prop
  | union branches => branches ≠ [] ∧ ∀ branch ∈ branches, branch.kind ≠ .union
  | enum name symbols => name ≠ "" ∧ symbols ≠ [] ∧ symbols.Nodup
  | fixed name _ => name ≠ ""
  | record name fields =>
    name ≠ "" ∧ (∀ field ∈ fields, field.1 ≠ "") ∧ (fields.map Prod.fst).Nodup
  | _ => True

/-- Where something is in a schema, as numbers from the root down. -/
abbrev Place := List Nat

/-- The order of a walk depth first and from left to right. -/
abbrev Before : Place → Place → Prop := List.Lex (· < ·)

/-- A flaw of a node itself. Places of the node's own checks come before those of its first child,
and the checks of a child's name or kind before what is in that child. -/
inductive Breaks : Schema → Place → SchemaFlaw → Prop
  | noBranches : Breaks (.union []) [0] .noBranches
  | nestedUnion {branches inner : List Schema} {position : Nat} :
    branches[position]? = some (.union inner) →
    Breaks (.union branches) [position + 1, 0] (.nestedUnion position)
  | unnamedEnum (symbols : List String) : Breaks (.enum "" symbols) [0] (.unnamed .enum)
  | noSymbols (name : String) : Breaks (.enum name []) [1] (.noSymbols name)
  | repeatedSymbol {name symbol : String} {symbols : List String} {position : Nat} :
    symbols[position]? = some symbol → symbol ∈ symbols.take position →
    Breaks (.enum name symbols) [position + 2] (.repeatedSymbol name symbol)
  | unnamedFixed (size : Nat) : Breaks (.fixed "" size) [0] (.unnamed .fixed)
  | unnamedRecord (fields : List (String × Schema)) :
    Breaks (.record "" fields) [0] (.unnamed .record)
  | unnamedField {name : String} {fields : List (String × Schema)} {position : Nat}
    {inner : Schema} : fields[position]? = some ("", inner) →
    Breaks (.record name fields) [position + 1, 0] (.unnamedField name)
  | repeatedField {name field : String} {fields : List (String × Schema)} {position : Nat}
    {inner : Schema} : fields[position]? = some (field, inner) →
    field ∈ (fields.map Prod.fst).take position →
    Breaks (.record name fields) [position + 1, 1] (.repeatedField name field)

/-- The path and the place of a node in a schema. -/
inductive Leads : Path → Place → Schema → Schema → Prop
  | here (schema : Schema) : Leads [] [] schema schema
  | item {path : Path} {place : Place} {inner node : Schema} : Leads path place inner node →
    Leads (.item :: path) (0 :: place) (.array inner) node
  | entry {path : Path} {place : Place} {inner node : Schema} : Leads path place inner node →
    Leads (.entry :: path) (0 :: place) (.map inner) node
  | branch {position : Nat} {path : Path} {place : Place} {branches : List Schema}
    {inner node : Schema} : branches[position]? = some inner → Leads path place inner node →
    Leads (.branch position :: path) ((position + 1) :: 1 :: place) (.union branches) node
  | field {position : Nat} {name record : String} {path : Path} {place : Place}
    {fields : List (String × Schema)} {inner node : Schema} :
    fields[position]? = some (name, inner) → Leads path place inner node →
    Leads (.field name :: path) ((position + 1) :: 2 :: place) (.record record fields) node

/-- A flaw somewhere in a schema. -/
def Flaws (schema : Schema) (place : Place) (fault : Located SchemaFlaw) : Prop :=
  ∃ node above own, Leads fault.path above schema node ∧ Breaks node own fault.cause ∧
    place = above ++ own

theorem Flaws.own {schema : Schema} {place : Place} {flaw : SchemaFlaw}
    (breaks : Breaks schema place flaw) : Flaws schema place (.here flaw) :=
  ⟨schema, [], place, .here schema, breaks, rfl⟩

theorem Flaws.step {inner outer : Schema} {segment : Segment} {front place : Place}
    {fault : Located SchemaFlaw} (found : Flaws inner place fault)
    (down : ∀ {path above node}, Leads path above inner node →
      Leads (segment :: path) (front ++ above) outer node) :
    Flaws outer (front ++ place) (fault.within segment) := by
  obtain ⟨node, above, own, leads, breaks, rfl⟩ := found
  exact ⟨node, front ++ above, own, down leads, breaks, by simp⟩

/-- What a check finds of the flaws that there are: none if there are none, and else the first. -/
def First (flaws : Place → Located SchemaFlaw → Prop) : Check → Prop
  | .ok () => ∀ place fault, ¬ flaws place fault
  | .error fault => ∃ place, flaws place fault ∧
    ∀ other fault', flaws other fault' → Before place other ∨ place = other ∧ fault = fault'

namespace First

variable {flaws others : Place → Located SchemaFlaw → Prop} {check next : Check}

theorem congr (h : First flaws check)
    (same : ∀ place fault, flaws place fault ↔ others place fault) : First others check := by
  obtain rfl : flaws = others := funext fun place => funext fun fault => propext (same place fault)
  exact h

theorem ok : First (fun _ _ => False) (.ok ()) := fun _ _ => id

theorem refuseIf (bad : Prop) [Decidable bad] (place : Place) (flaw : SchemaFlaw) :
    First (fun p f => bad ∧ p = place ∧ f = .here flaw) (Schema.refuseIf bad flaw) := by
  unfold Schema.refuseIf
  split
  case isTrue h => exact ⟨place, ⟨h, rfl, rfl⟩, fun _ _ ⟨_, p, f⟩ => .inr ⟨p.symm, f.symm⟩⟩
  case isFalse h => exact fun _ _ found => h found.1

/-- The second of two checks counts if the first finds nothing. -/
theorem bind (h : First flaws check) (k : First others next)
    (before : ∀ p f q g, flaws p f → others q g → Before p q) :
    First (fun p f => flaws p f ∨ others p f) (check >>= fun _ => next) := by
  cases check with
  | error fault =>
    obtain ⟨place, found, least⟩ := h
    refine ⟨place, .inl found, fun other fault' => ?_⟩
    rintro (early | late)
    · exact least other fault' early
    · exact .inl (before place fault other fault' found late)
  | ok =>
    cases next with
    | error fault =>
      obtain ⟨place, found, least⟩ := k
      refine ⟨place, .inr found, fun other fault' => ?_⟩
      rintro (early | late)
      · exact absurd early (h other fault')
      · exact least other fault' late
    | ok => exact fun place fault found => found.elim (h place fault) (k place fault)

theorem unique (h : First flaws check) (k : First flaws next) : check = next := by
  cases check with
  | ok =>
    cases next with
    | ok => rfl
    | error fault =>
      obtain ⟨place, found, -⟩ := k
      exact absurd found (h place fault)
  | error fault =>
    obtain ⟨place, found, least⟩ := h
    cases next with
    | ok => exact absurd found (k place fault)
    | error other =>
      obtain ⟨place', found', least'⟩ := k
      obtain before | ⟨-, rfl⟩ := least place' other found'
      · obtain after | ⟨-, rfl⟩ := least' place fault found
        · exact absurd after ((List.Lex.asymm _).asymm _ _ before)
        · rfl
      · rfl

/-- What is found below a node stands there behind all that its place begins with. -/
theorem under (segment : Segment) (above : Place) (h : First flaws check) :
    First (fun p f => ∃ q g, flaws q g ∧ p = above ++ q ∧ f = g.within segment)
      (Located.under segment check) := by
  cases check with
  | error fault =>
    obtain ⟨place, found, least⟩ := h
    refine ⟨above ++ place, ⟨place, fault, found, rfl, rfl⟩, ?_⟩
    rintro _ _ ⟨q, g, other, rfl, rfl⟩
    obtain before | ⟨rfl, rfl⟩ := least q g other
    · exact .inl (.append_left _ before above)
    · exact .inr ⟨rfl, rfl⟩
  | ok =>
    rintro _ _ ⟨q, g, found, rfl, rfl⟩
    exact h q g found

end First

theorem exists_getElem?_cons {α : Type} {head : α} {rest : List α} {p : Nat → α → Prop} :
    (∃ position x, (head :: rest)[position]? = some x ∧ p position x) ↔
      p 0 head ∨ ∃ position x, rest[position]? = some x ∧ p (position + 1) x := by
  constructor
  · intro h
    obtain ⟨_ | position, x, there, h⟩ := h
    · obtain rfl : head = x := by simpa using there
      exact .inl h
    · exact .inr ⟨position, x, by simpa using there, h⟩
  · intro h
    obtain h | ⟨position, x, there, h⟩ := h
    · exact ⟨0, head, rfl, h⟩
    · exact ⟨position + 1, x, by simpa using there, h⟩

theorem mem_seen_iff {name head : String} {seen names : List String} {position : Nat} :
    (name ∈ seen ∨ name ∈ (head :: names).take (position + 1)) ↔
      (name ∈ head :: seen ∨ name ∈ names.take position) := by
  simp only [List.take_succ_cons, List.mem_cons, or_assoc, or_left_comm]

/-- The flaws of symbols that come after those `seen`. -/
def SymbolFlaws (enum : String) (before : Nat) (seen symbols : List String) (place : Place)
    (fault : Located SchemaFlaw) : Prop :=
  ∃ position symbol, symbols[position]? = some symbol ∧
    (symbol ∈ seen ∨ symbol ∈ symbols.take position) ∧ place = [before + position + 2] ∧
    fault = .here (.repeatedSymbol enum symbol)

/-- The flaws of branches that come after so many others. -/
def BranchFlaws (before : Nat) (branches : List Schema) (place : Place)
    (fault : Located SchemaFlaw) : Prop :=
  ∃ position branch, branches[position]? = some branch ∧
    (branch.kind = .union ∧ place = [before + position + 1, 0] ∧
        fault = .here (.nestedUnion (before + position)) ∨
      ∃ q g, Flaws branch q g ∧ place = [before + position + 1, 1] ++ q ∧
        fault = g.within (.branch (before + position)))

/-- The flaws of fields that come after so many others, with the names `seen`. -/
def FieldFlaws (record : String) (before : Nat) (seen : List String)
    (fields : List (String × Schema)) (place : Place) (fault : Located SchemaFlaw) : Prop :=
  ∃ position field, fields[position]? = some field ∧
    (field.1 = "" ∧ place = [before + position + 1, 0] ∧ fault = .here (.unnamedField record) ∨
      (field.1 ∈ seen ∨ field.1 ∈ (fields.map Prod.fst).take position) ∧
        place = [before + position + 1, 1] ∧ fault = .here (.repeatedField record field.1) ∨
      ∃ q g, Flaws field.2 q g ∧ place = [before + position + 1, 2] ++ q ∧
        fault = g.within (.field field.1))

theorem symbolFlaws_cons {enum symbol : String} {before : Nat} {seen symbols : List String}
    {place : Place} {fault : Located SchemaFlaw} :
    SymbolFlaws enum before seen (symbol :: symbols) place fault ↔
      (symbol ∈ seen ∧ place = [before + 2] ∧ fault = .here (.repeatedSymbol enum symbol)) ∨
        SymbolFlaws enum (before + 1) (symbol :: seen) symbols place fault := by
  simp only [SymbolFlaws, exists_getElem?_cons, mem_seen_iff, List.take_zero, List.not_mem_nil,
    or_false, Nat.add_right_comm before 1, Nat.add_assoc before]

theorem branchFlaws_cons {before : Nat} {branch : Schema} {branches : List Schema} {place : Place}
    {fault : Located SchemaFlaw} :
    BranchFlaws before (branch :: branches) place fault ↔
      ((branch.kind = .union ∧ place = [before + 1, 0] ∧ fault = .here (.nestedUnion before)) ∨
        ∃ q g, Flaws branch q g ∧ place = [before + 1, 1] ++ q ∧
          fault = g.within (.branch before)) ∨
        BranchFlaws (before + 1) branches place fault := by
  simp only [BranchFlaws, exists_getElem?_cons, Nat.add_right_comm before 1, Nat.add_assoc before,
    Nat.add_zero]

theorem fieldFlaws_cons {record : String} {before : Nat} {seen : List String}
    {field : String × Schema} {fields : List (String × Schema)} {place : Place}
    {fault : Located SchemaFlaw} :
    FieldFlaws record before seen (field :: fields) place fault ↔
      (field.1 = "" ∧ place = [before + 1, 0] ∧ fault = .here (.unnamedField record) ∨
        field.1 ∈ seen ∧ place = [before + 1, 1] ∧ fault = .here (.repeatedField record field.1) ∨
        ∃ q g, Flaws field.2 q g ∧ place = [before + 1, 2] ++ q ∧
          fault = g.within (.field field.1)) ∨
        FieldFlaws record (before + 1) (field.1 :: seen) fields place fault := by
  simp only [FieldFlaws, exists_getElem?_cons, List.map_cons, mem_seen_iff, List.take_zero,
    List.not_mem_nil, or_false, Nat.add_right_comm before 1, Nat.add_assoc before]

/-- Behind a number of children. -/
def Behind (before : Nat) (place : Place) : Prop :=
  ∃ n rest, place = n :: rest ∧ before < n

theorem Behind.after {n before : Nat} {rest place : Place} (h : Behind before place)
    (le : n ≤ before) : Before (n :: rest) place := by
  obtain ⟨_, others, rfl, less⟩ := h
  exact .rel (Nat.lt_of_le_of_lt le less)

theorem SymbolFlaws.behind {enum : String} {before : Nat} {seen symbols : List String}
    {place : Place} {fault : Located SchemaFlaw}
    (h : SymbolFlaws enum before seen symbols place fault) : Behind (before + 1) place := by
  obtain ⟨position, symbol, there, old, rfl, rfl⟩ := h
  exact ⟨_, _, rfl, by omega⟩

theorem BranchFlaws.behind {before : Nat} {branches : List Schema} {place : Place}
    {fault : Located SchemaFlaw} (h : BranchFlaws before branches place fault) :
    Behind before place := by
  obtain ⟨position, branch, there, ⟨_, rfl, _⟩ | ⟨q, g, _, rfl, _⟩⟩ := h
  all_goals exact ⟨_, _, rfl, by omega⟩

theorem FieldFlaws.behind {record : String} {before : Nat} {seen : List String}
    {fields : List (String × Schema)} {place : Place} {fault : Located SchemaFlaw}
    (h : FieldFlaws record before seen fields place fault) : Behind before place := by
  obtain ⟨position, field, there, ⟨_, rfl, _⟩ | ⟨_, rfl, _⟩ | ⟨q, g, _, rfl, _⟩⟩ := h
  all_goals exact ⟨_, _, rfl, by omega⟩

theorem symbols_first (enum : String) (before : Nat) (seen symbols : List String) :
    First (SymbolFlaws enum before seen symbols)
      (match firstRepeat? seen symbols with
        | some symbol => refuse (.repeatedSymbol enum symbol)
        | none => .ok ()) := by
  induction symbols generalizing before seen with
  | nil => exact First.ok.congr fun place fault => by simp [SymbolFlaws]
  | cons symbol symbols ih =>
    have one := First.refuseIf (symbol ∈ seen) [before + 2] (.repeatedSymbol enum symbol)
    have both := (one.bind (ih (before + 1) (symbol :: seen)) ?_).congr fun _ _ =>
      symbolFlaws_cons.symm
    · by_cases old : symbol ∈ seen
      · simp only [firstRepeat?, if_pos old]
        rwa [Schema.refuseIf, if_pos old] at both
      · simp only [firstRepeat?, if_neg old]
        rwa [Schema.refuseIf, if_neg old] at both
    · rintro _ _ _ _ ⟨_, rfl, _⟩ later
      exact later.behind.after (Nat.le_refl _)

theorem flaws_array_iff {item : Schema} {place : Place} {fault : Located SchemaFlaw} :
    Flaws (.array item) place fault ↔
      ∃ q g, Flaws item q g ∧ place = [0] ++ q ∧ fault = g.within .item := by
  constructor
  · rintro ⟨node, _, own, leads, breaks, rfl⟩
    obtain ⟨path, flaw⟩ := fault
    cases leads with
    | here => cases breaks
    | item leads => exact ⟨_, ⟨_, flaw⟩, ⟨node, _, own, leads, breaks, rfl⟩, rfl, rfl⟩
  · rintro ⟨q, g, found, rfl, rfl⟩
    exact found.step .item

theorem flaws_map_iff {value : Schema} {place : Place} {fault : Located SchemaFlaw} :
    Flaws (.map value) place fault ↔
      ∃ q g, Flaws value q g ∧ place = [0] ++ q ∧ fault = g.within .entry := by
  constructor
  · rintro ⟨node, _, own, leads, breaks, rfl⟩
    obtain ⟨path, flaw⟩ := fault
    cases leads with
    | here => cases breaks
    | entry leads => exact ⟨_, ⟨_, flaw⟩, ⟨node, _, own, leads, breaks, rfl⟩, rfl, rfl⟩
  · rintro ⟨q, g, found, rfl, rfl⟩
    exact found.step .entry

theorem flaws_union_iff {branches : List Schema} {place : Place} {fault : Located SchemaFlaw} :
    Flaws (.union branches) place fault ↔
      (branches.length = 0 ∧ place = [0] ∧ fault = .here .noBranches) ∨
        BranchFlaws 0 branches place fault := by
  simp only [BranchFlaws, Nat.zero_add]
  constructor
  · rintro ⟨node, _, own, leads, breaks, rfl⟩
    obtain ⟨path, flaw⟩ := fault
    cases leads with
    | here =>
      cases breaks with
      | noBranches => exact .inl ⟨rfl, rfl, rfl⟩
      | nestedUnion there => exact .inr ⟨_, _, there, .inl ⟨rfl, rfl, rfl⟩⟩
    | branch there leads =>
      exact .inr ⟨_, _, there, .inr ⟨_, ⟨_, flaw⟩, ⟨node, _, own, leads, breaks, rfl⟩, rfl, rfl⟩⟩
  · rintro (⟨none, rfl, rfl⟩ | ⟨position, branch, there, own | inside⟩)
    · obtain rfl := List.length_eq_zero_iff.mp none
      exact .own .noBranches
    · obtain ⟨union, rfl, rfl⟩ := own
      cases branch with
      | union => exact .own (.nestedUnion there)
      | _ => cases union
    · obtain ⟨q, g, found, rfl, rfl⟩ := inside
      exact found.step (.branch there)

theorem flaws_enum_iff {name : String} {symbols : List String} {place : Place}
    {fault : Located SchemaFlaw} :
    Flaws (.enum name symbols) place fault ↔
      (name = "" ∧ place = [0] ∧ fault = .here (.unnamed .enum)) ∨
        (symbols = [] ∧ place = [1] ∧ fault = .here (.noSymbols name)) ∨
        SymbolFlaws name 0 [] symbols place fault := by
  simp only [SymbolFlaws, Nat.zero_add, List.not_mem_nil, false_or]
  constructor
  · rintro ⟨node, _, own, leads, breaks, rfl⟩
    obtain ⟨path, flaw⟩ := fault
    cases leads
    cases breaks with
    | unnamedEnum => exact .inl ⟨rfl, rfl, rfl⟩
    | noSymbols => exact .inr (.inl ⟨rfl, rfl, rfl⟩)
    | repeatedSymbol there old => exact .inr (.inr ⟨_, _, there, old, rfl, rfl⟩)
  · rintro (⟨rfl, rfl, rfl⟩ | ⟨rfl, rfl, rfl⟩ | ⟨position, symbol, there, old, rfl, rfl⟩)
    · exact .own (.unnamedEnum symbols)
    · exact .own (.noSymbols name)
    · exact .own (.repeatedSymbol there old)

theorem flaws_fixed_iff {name : String} {size : Nat} {place : Place} {fault : Located SchemaFlaw} :
    Flaws (.fixed name size) place fault ↔
      name = "" ∧ place = [0] ∧ fault = .here (.unnamed .fixed) := by
  constructor
  · rintro ⟨node, _, own, leads, breaks, rfl⟩
    obtain ⟨path, flaw⟩ := fault
    cases leads
    cases breaks
    exact ⟨rfl, rfl, rfl⟩
  · rintro ⟨rfl, rfl, rfl⟩
    exact .own (.unnamedFixed size)

theorem flaws_record_iff {name : String} {fields : List (String × Schema)} {place : Place}
    {fault : Located SchemaFlaw} :
    Flaws (.record name fields) place fault ↔
      (name = "" ∧ place = [0] ∧ fault = .here (.unnamed .record)) ∨
        FieldFlaws name 0 [] fields place fault := by
  simp only [FieldFlaws, Nat.zero_add, List.not_mem_nil, false_or]
  constructor
  · rintro ⟨node, _, own, leads, breaks, rfl⟩
    obtain ⟨path, flaw⟩ := fault
    cases leads with
    | here =>
      cases breaks with
      | unnamedRecord => exact .inl ⟨rfl, rfl, rfl⟩
      | unnamedField there => exact .inr ⟨_, _, there, .inl ⟨rfl, rfl, rfl⟩⟩
      | repeatedField there old => exact .inr ⟨_, _, there, .inr (.inl ⟨old, rfl, rfl⟩)⟩
    | field there leads =>
      exact .inr ⟨_, _, there,
        .inr (.inr ⟨_, ⟨_, flaw⟩, ⟨node, _, own, leads, breaks, rfl⟩, rfl, rfl⟩)⟩
  · rintro (⟨rfl, rfl, rfl⟩ | ⟨position, ⟨field, inner⟩, there, own | old | inside⟩)
    · exact .own (.unnamedRecord fields)
    · obtain ⟨rfl, rfl, rfl⟩ := own
      exact .own (.unnamedField there)
    · obtain ⟨old, rfl, rfl⟩ := old
      exact .own (.repeatedField there old)
    · obtain ⟨q, g, found, rfl, rfl⟩ := inside
      exact found.step (.field there)

mutual

theorem validate_first (schema : Schema) : First (Flaws schema) (validate schema) := by
  match schema with
  | .array item =>
    exact ((validate_first item).under .item [0]).congr fun _ _ => flaws_array_iff.symm
  | .map value =>
    exact ((validate_first value).under .entry [0]).congr fun _ _ => flaws_map_iff.symm
  | .union branches =>
    refine ((First.refuseIf (branches.length = 0) [0] .noBranches).bind
      (validateBranches_first 0 branches) ?_).congr fun _ _ => flaws_union_iff.symm
    rintro _ _ _ _ ⟨_, rfl, _⟩ later
    exact later.behind.after (Nat.le_refl _)
  | .enum name symbols =>
    refine ((First.refuseIf (name = "") [0] (.unnamed .enum)).bind
      ((First.refuseIf (symbols = []) [1] (.noSymbols name)).bind
        (symbols_first name 0 [] symbols) ?_) ?_).congr fun _ _ => flaws_enum_iff.symm
    · rintro _ _ _ _ ⟨_, rfl, _⟩ later
      exact later.behind.after (Nat.le_refl _)
    · rintro _ _ _ _ ⟨_, rfl, _⟩ (⟨_, rfl, _⟩ | later)
      · exact .rel (by decide)
      · exact later.behind.after (Nat.zero_le 1)
  | .fixed name _ =>
    exact (First.refuseIf (name = "") [0] (.unnamed .fixed)).congr fun _ _ => flaws_fixed_iff.symm
  | .record name fields =>
    refine ((First.refuseIf (name = "") [0] (.unnamed .record)).bind
      (validateFields_first name 0 [] fields) ?_).congr fun _ _ => flaws_record_iff.symm
    rintro _ _ _ _ ⟨_, rfl, _⟩ later
    exact later.behind.after (Nat.le_refl _)
  | .null | .boolean | .int | .long | .float | .double | .bytes | .string =>
    refine First.ok.congr fun place fault => iff_of_false id ?_
    rintro ⟨node, _, own, leads, breaks, rfl⟩
    generalize fault.path = path at leads
    cases leads
    cases breaks

theorem validateBranches_first (before : Nat) (branches : List Schema) :
    First (BranchFlaws before branches) (validateBranches before branches) := by
  match branches with
  | [] => exact First.ok.congr fun _ _ => by simp [BranchFlaws]
  | branch :: rest =>
    have own := First.refuseIf (branch.kind = .union) [before + 1, 0] (.nestedUnion before)
    have inside := (validate_first branch).under (.branch before) [before + 1, 1]
    have others := validateBranches_first (before + 1) rest
    refine (own.bind (inside.bind others ?_) ?_).congr fun _ _ =>
      or_assoc.symm.trans branchFlaws_cons.symm
    · rintro _ _ _ _ ⟨_, _, _, rfl, _⟩ later
      exact later.behind.after (Nat.le_refl _)
    · rintro _ _ _ _ ⟨_, rfl, _⟩ (⟨_, _, _, rfl, _⟩ | later)
      · exact .cons (.rel (by decide))
      · exact later.behind.after (Nat.le_refl _)

theorem validateFields_first (record : String) (before : Nat) (seen : List String)
    (fields : List (String × Schema)) :
    First (FieldFlaws record before seen fields) (validateFields record seen fields) := by
  match fields with
  | [] => exact First.ok.congr fun _ _ => by simp [FieldFlaws]
  | (name, schema) :: rest =>
    have unnamed := First.refuseIf (name = "") [before + 1, 0] (.unnamedField record)
    have old := First.refuseIf (name ∈ seen) [before + 1, 1] (.repeatedField record name)
    have inside := (validate_first schema).under (.field name) [before + 1, 2]
    have others := validateFields_first record (before + 1) (name :: seen) rest
    -- The flaws of the name stand before those inside, and all of them before those of other fields.
    refine (unnamed.bind (old.bind (inside.bind others ?_) ?_) ?_).congr fun _ _ =>
      (by rw [fieldFlaws_cons, or_assoc, or_assoc])
    · rintro _ _ _ _ ⟨_, _, _, rfl, _⟩ later
      exact later.behind.after (Nat.le_refl _)
    · rintro _ _ _ _ ⟨_, rfl, _⟩ (⟨_, _, _, rfl, _⟩ | later)
      · exact .cons (.rel (by decide))
      · exact later.behind.after (Nat.le_refl _)
    · rintro _ _ _ _ ⟨_, rfl, _⟩ (⟨_, rfl, _⟩ | ⟨_, _, _, rfl, _⟩ | later)
      · exact .cons (.rel (by decide))
      · exact .cons (.rel (by decide))
      · exact later.behind.after (Nat.le_refl _)

end

end Schema

namespace Schema

end Schema

end Clickstream

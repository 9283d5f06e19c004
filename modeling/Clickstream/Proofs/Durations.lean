import Clickstream.Duration
import Mathlib.Algebra.Group.Nat.Defs
import Mathlib.Data.List.Basic
import Mathlib.Data.List.TakeWhile

namespace Clickstream

namespace Decimal

theorem toNat_of_isDigit {c : Char} (h : isDigit c = true) : 48 ≤ c.toNat ∧ c.toNat ≤ 57 := by
  simpa [isDigit, Char.le_def, UInt32.le_iff_toNat_le] using h

/-- Digits stand for the number that they are read as everywhere else. -/
theorem number_ten {digits : List Char} (all : ∀ c ∈ digits, isDigit c = true) :
    number 10 digits = Nat.ofDigitChars 10 digits 0 := by
  rw [number, ofDigits, List.foldl_map, Nat.ofDigitChars_eq_foldl]
  refine List.foldl_ext _ _ _ fun sofar c mem => ?_
  rw [digitValue, if_pos (all c mem)]
  rfl

theorem isDigit_toDigits (n : Nat) : ∀ c ∈ Nat.toDigits 10 n, isDigit c = true :=
  fun _ mem => Nat.isDigit_of_mem_toDigits (by decide) (by decide) mem

end Decimal

namespace Text

theorem not_isBlank_of_isDigit {c : Char} (h : Decimal.isDigit c = true) : isBlank c = false := by
  obtain ⟨low, high⟩ := Decimal.toNat_of_isDigit h
  simp only [isBlank, blankRanges, List.any_cons, List.any_nil, Bool.or_false, Bool.or_eq_false_iff,
    Bool.and_eq_false_iff, decide_eq_false_iff_not]
  omega

theorem not_isDigit_of_isBlank {c : Char} (h : isBlank c = true) : Decimal.isDigit c = false := by
  refine Bool.eq_false_iff.mpr fun digit => ?_
  rw [not_isBlank_of_isDigit digit] at h
  cases h

theorem dropWhile_of_head {p : Char → Bool} {text : List Char}
    (h : ∀ c ∈ text.head?, p c = false) : text.dropWhile p = text := by
  cases text with
  | nil => rfl
  | cons c text => rw [List.dropWhile_cons_of_neg (by simp [h c rfl])]

theorem takeWhile_of_head {p : Char → Bool} {text : List Char}
    (h : ∀ c ∈ text.head?, p c = false) : text.takeWhile p = [] := by
  cases text with
  | nil => rfl
  | cons c text => rw [List.takeWhile_cons_of_neg (by simp [h c rfl])]

/-- The longest run in front of a text. -/
theorem exists_run (p : Char → Bool) (text : List Char) : ∃ run rest, text = run ++ rest ∧
    (∀ c ∈ run, p c = true) ∧ ∀ c ∈ rest.head?, p c = false := by
  refine ⟨_, _, List.takeWhile_append_dropWhile.symm, fun _ => List.mem_takeWhile_imp,
    fun c mem => ?_⟩
  have stop := List.head?_dropWhile_not p text
  rw [Option.mem_def] at mem
  rwa [mem] at stop

/-- The longest run at the end of a text. -/
theorem exists_run_back (p : Char → Bool) (text : List Char) : ∃ rest run, text = rest ++ run ∧
    (∀ c ∈ run, p c = true) ∧ ∀ c ∈ rest.getLast?, p c = false := by
  obtain ⟨run, rest, split, all, stop⟩ := exists_run p text.reverse
  refine ⟨rest.reverse, run.reverse, ?_, fun c mem => all c (List.mem_reverse.mp mem), ?_⟩
  · rw [← List.reverse_append, ← split, List.reverse_reverse]
  · rwa [List.getLast?_reverse]

/-- White space and nothing else. -/
def Blank (text : List Char) : Prop := ∀ c ∈ text, isBlank c = true

namespace Blank

theorem reverse {text : List Char} (h : Blank text) : Blank text.reverse :=
  fun c mem => h c (List.mem_reverse.mp mem)

theorem dropWhile {text : List Char} (h : Blank text) : text.dropWhile isBlank = [] := by
  rw [← List.append_nil text, List.dropWhile_append_of_pos h, List.dropWhile_nil]

end Blank

/-- What is left is what stands between white space, from its first character to its last. -/
theorem trim_append {lead core trail : List Char} (before : Blank lead) (behind : Blank trail)
    (front : ∀ c ∈ core.head?, isBlank c = false)
    (back : ∀ c ∈ core.getLast?, isBlank c = false) : trim (lead ++ core ++ trail) = core := by
  rw [trim, List.append_assoc, List.dropWhile_append_of_pos before]
  cases core with
  | nil => simp [behind.dropWhile]
  | cons c rest =>
    have opened : (c :: rest ++ trail).dropWhile isBlank = c :: rest ++ trail :=
      dropWhile_of_head front
    have closed : (c :: rest).reverse.dropWhile isBlank = (c :: rest).reverse :=
      dropWhile_of_head (by rwa [List.head?_reverse])
    rw [opened, List.reverse_append, List.dropWhile_append_of_pos behind.reverse, closed,
      List.reverse_reverse]

end Text

namespace TimeUnit

theorem mem_all (unit : TimeUnit) : unit ∈ all := by cases unit <;> decide

/-- No name belongs to two units. -/
theorem aliases_disjoint : ∀ one ∈ all, ∀ other ∈ all, ∀ name ∈ one.aliases,
    name ∈ other.aliases → one = other := by decide +kernel

theorem ofName?_eq_some_iff {name : String} {unit : TimeUnit} :
    ofName? name = some unit ↔ name ∈ unit.aliases := by
  constructor
  · intro h
    simpa using List.find?_some h
  · intro h
    have found : (ofName? name).isSome :=
      List.find?_isSome.mpr ⟨unit, mem_all unit, decide_eq_true h⟩
    obtain ⟨other, same⟩ := Option.isSome_iff_exists.mp found
    have named : name ∈ other.aliases := by simpa using List.find?_some same
    rw [same, aliases_disjoint other (mem_all other) unit (mem_all unit) name named h]

/-- A name is not empty, and there is no digit and no white space in it. -/
theorem solid_of_mem_aliases {unit : TimeUnit} {name : String} (h : name ∈ unit.aliases) :
    name.toList ≠ [] ∧
      ∀ c ∈ name.toList, Decimal.isDigit c = false ∧ Text.isBlank c = false := by
  have solid : (all.all fun unit => unit.aliases.all fun name => !name.toList.isEmpty &&
      name.toList.all fun c => !Decimal.isDigit c && !Text.isBlank c) = true := by decide +kernel
  simp only [List.all_eq_true, Bool.and_eq_true, Bool.not_eq_true',
    List.isEmpty_eq_false_iff] at solid
  exact solid unit (mem_all unit) name h

/-- How a unit may be named behind a number. Milliseconds need no name. -/
inductive Names : List Char → TimeUnit → Prop
  | none : Names [] .milli
  | given {name : String} {unit : TimeUnit} : name ∈ unit.aliases → Names name.toList unit

theorem Names.solid {name : List Char} {unit : TimeUnit} (h : Names name unit) :
    ∀ c ∈ name, Decimal.isDigit c = false ∧ Text.isBlank c = false := by
  cases h with
  | none => simp
  | given mem => exact (solid_of_mem_aliases mem).2

end TimeUnit

namespace Duration
open Decimal Text TimeUnit

theorem unitOf_ok_iff {name : List Char} {unit : TimeUnit} :
    unitOf name = .ok unit ↔ Names name unit := by
  unfold unitOf
  split
  case isTrue none =>
    subst none
    constructor
    · intro h
      cases h
      exact .none
    · intro h
      generalize empty : [] = name at h
      cases h with
      | none => rfl
      | given mem => exact absurd empty.symm (solid_of_mem_aliases mem).1
  case isFalse some =>
    constructor
    · intro h
      split at h
      case h_1 other found =>
        obtain rfl := Except.ok.inj h
        simpa using Names.given (ofName?_eq_some_iff.mp found)
      case h_2 => cases h
    · intro h
      cases h with
      | none => exact absurd rfl some
      | given mem => simp only [String.ofList_toList, ofName?_eq_some_iff.mpr mem]

theorem unitOf_error_iff {name : List Char} {flaw : DurationFlaw} :
    unitOf name = .error flaw ↔
      (¬ ∃ unit, Names name unit) ∧ flaw = .unknownUnit (String.ofList name) := by
  simp only [← unitOf_ok_iff]
  unfold unitOf
  split
  case isTrue => simp
  case isFalse => split <;> simp [eq_comm]

theorem wideLimit_eq : wideLimit = 2 ^ 128 := rfl

/-- The longest duration, in nanoseconds. -/
def longest : Nat := (2 ^ 64 - 1) * 10 ^ 9 + 999_999_999

theorem fits_iff {nanos : Nat} : nanos / nanosPerSecond < wordLimit ↔ nanos ≤ longest := by
  have next : wordLimit * nanosPerSecond = longest + 1 := by decide
  rw [Nat.div_lt_iff_lt_mul (by decide), next, Nat.lt_succ_iff]

theorem ofNanos?_eq_some_iff {nanos : Nat} {duration : Duration} :
    ofNanos? nanos = some duration ↔ nanos ≤ longest ∧ duration.nanos = nanos := by
  rw [← fits_iff, ofNanos?]
  split
  case isTrue fits =>
    simp only [fits, true_and, Option.some.injEq, eq_comm (a := duration.nanos)]
    exact ⟨fun h => h ▸ rfl, fun h => by cases duration; cases h; rfl⟩
  case isFalse beyond => simp [beyond]

theorem ofNanos?_eq_none_iff {nanos : Nat} : ofNanos? nanos = none ↔ longest < nanos := by
  rw [← Nat.not_le, ← fits_iff, ofNanos?]
  split <;> simp [*]

/-- The outcome for digits and what follows them, up to the white space in between. -/
theorem ofChars_append {digits gap name : List Char} (some : digits ≠ [])
    (all : ∀ c ∈ digits, isDigit c = true) (between : Blank gap)
    (ends : ∀ c ∈ (gap ++ name).head?, isDigit c = false)
    (front : ∀ c ∈ name.head?, isBlank c = false) :
    ofChars (digits ++ (gap ++ name)) =
      if 2 ^ 128 ≤ Nat.ofDigitChars 10 digits 0 then .error .integerRange
      else unitOf name >>= fun unit =>
        (ofNanos? (Nat.ofDigitChars 10 digits 0 * unit.nanos)).elim (.error .overflow) .ok := by
  have taken : (digits ++ (gap ++ name)).takeWhile isDigit = digits := by
    rw [List.takeWhile_append_of_pos all, takeWhile_of_head ends, List.append_nil]
  have left : ((digits ++ (gap ++ name)).dropWhile isDigit).dropWhile isBlank = name := by
    rw [List.dropWhile_append_of_pos all, dropWhile_of_head ends,
      List.dropWhile_append_of_pos between, dropWhile_of_head front]
  simp only [ofChars, taken, left, some, number_ten all, wideLimit_eq, if_false]
  split
  case isTrue => rfl
  case isFalse =>
    cases unitOf name with
    | error flaw => rfl
    | ok unit =>
      change (if _ then _ else _) = Option.elim _ _ _
      split
      case isTrue wide =>
        -- What does not fit 128 bits has too many seconds for 64.
        have beyond : longest < 2 ^ 128 := by decide
        rw [ofNanos?_eq_none_iff.mpr (Nat.lt_of_lt_of_le beyond wide), Option.elim_none]
      case isFalse => split <;> simp [*]

/-- A number and perhaps a unit, with white space around and between them. The digits go on as far
as there are any, and the name begins and ends with something else than white space. -/
structure Parts (lead digits gap name trail : List Char) : Prop where
  before : Blank lead
  between : Blank gap
  behind : Blank trail
  some : digits ≠ []
  all : ∀ c ∈ digits, isDigit c = true
  ends : ∀ c ∈ (gap ++ name).head?, isDigit c = false
  front : ∀ c ∈ name.head?, isBlank c = false
  back : ∀ c ∈ name.getLast?, isBlank c = false

namespace Parts

variable {lead digits gap name trail : List Char}

/-- Digits and the name of a unit can only be meant to be the parts of a text. -/
theorem of_names {unit : TimeUnit} (before : Blank lead) (between : Blank gap)
    (behind : Blank trail) (some : digits ≠ []) (all : ∀ c ∈ digits, isDigit c = true)
    (names : Names name unit) : Parts lead digits gap name trail := by
  refine ⟨before, between, behind, some, all, fun c mem => ?_,
    fun c mem => (names.solid c (List.mem_of_mem_head? mem)).2,
    fun c mem => (names.solid c (List.mem_of_mem_getLast? mem)).2⟩
  rcases List.mem_append.mp (List.mem_of_mem_head? mem) with blank | letter
  · exact not_isDigit_of_isBlank (between c blank)
  · exact (names.solid c letter).1

theorem trim_eq (h : Parts lead digits gap name trail) :
    trim (lead ++ digits ++ gap ++ name ++ trail) =
      digits ++ ((if name = [] then [] else gap) ++ name) := by
  have front : ∀ c ∈ digits.head?, isBlank c = false :=
    fun c mem => not_isBlank_of_isDigit (h.all c (List.mem_of_mem_head? mem))
  have back : ∀ c ∈ digits.getLast?, isBlank c = false :=
    fun c mem => not_isBlank_of_isDigit (h.all c (List.mem_of_mem_getLast? mem))
  obtain ⟨first, others, rfl⟩ := List.exists_cons_of_ne_nil h.some
  by_cases none : name = []
  · subst none
    have behind : Blank (gap ++ trail) := fun c mem =>
      (List.mem_append.mp mem).elim (h.between c) (h.behind c)
    simpa using trim_append h.before behind front back
  · have last : ∀ c ∈ (first :: others ++ gap ++ name).getLast?, isBlank c = false := by
      rw [List.getLast?_append_of_ne_nil _ none]
      exact h.back
    have core : trim (lead ++ (first :: others ++ gap ++ name) ++ trail) =
        first :: others ++ gap ++ name := trim_append h.before h.behind front last
    simpa [none] using core

theorem ofChars_eq (h : Parts lead digits gap name trail) :
    ofChars (trim (lead ++ digits ++ gap ++ name ++ trail)) =
      if 2 ^ 128 ≤ Nat.ofDigitChars 10 digits 0 then .error .integerRange
      else unitOf name >>= fun unit =>
        (ofNanos? (Nat.ofDigitChars 10 digits 0 * unit.nanos)).elim (.error .overflow) .ok := by
  rw [h.trim_eq]
  split
  case isTrue none =>
    subst none
    exact ofChars_append h.some h.all (by simp [Blank]) (by simp) h.front
  case isFalse => exact ofChars_append h.some h.all h.between h.ends h.front

end Parts

/-- Every text is of such parts, unless there is no digit behind the white space in front. -/
theorem exists_parts (text : List Char) :
    (∃ lead rest, text = lead ++ rest ∧ Blank lead ∧
      ∀ c ∈ rest.head?, isBlank c = false ∧ isDigit c = false) ∨
    ∃ lead digits gap name trail, text = lead ++ digits ++ gap ++ name ++ trail ∧
      Parts lead digits gap name trail := by
  obtain ⟨lead, rest, rfl, before, solid⟩ := exists_run isBlank text
  obtain ⟨digits, after, rfl, all, ends⟩ := exists_run isDigit rest
  by_cases none : digits = []
  · subst none
    exact .inl ⟨lead, after, rfl, before, fun c mem => ⟨solid c mem, ends c mem⟩⟩
  · obtain ⟨gap, rest, rfl, between, front⟩ := exists_run isBlank after
    obtain ⟨name, trail, rfl, behind, back⟩ := exists_run_back isBlank rest
    refine .inr ⟨lead, digits, gap, name, trail, by simp only [List.append_assoc],
      before, between, behind, none, all, fun c mem => ends c ?_, fun c mem => front c ?_, back⟩
    · rw [← List.append_assoc, List.head?_append, Option.mem_def.mp mem, Option.some_or]
      rfl
    · rw [List.head?_append, Option.mem_def.mp mem, Option.some_or]
      rfl

theorem ofChars_noInteger {lead rest : List Char} (before : Blank lead)
    (stop : ∀ c ∈ rest.head?, isBlank c = false ∧ isDigit c = false) :
    ofChars (trim (lead ++ rest)) = .error .noInteger := by
  obtain ⟨core, trail, rfl, behind, back⟩ := exists_run_back isBlank rest
  have first : ∀ c ∈ core.head?, isBlank c = false ∧ isDigit c = false := fun c mem => stop c (by
    rw [List.head?_append, Option.mem_def.mp mem, Option.some_or]
    rfl)
  rw [← List.append_assoc, trim_append before behind (fun c mem => (first c mem).1) back]
  have none : core.takeWhile isDigit = [] := takeWhile_of_head fun c mem => (first c mem).2
  simp only [ofChars, none, if_true]

/-- Why a text is not a duration. Of all that is wrong with it, what stands first here counts. -/
inductive Flawed : List Char → DurationFlaw → Prop
  | noInteger {lead rest : List Char} : Blank lead →
    (∀ c ∈ rest.head?, isBlank c = false ∧ isDigit c = false) → Flawed (lead ++ rest) .noInteger
  | integerRange {lead digits gap name trail : List Char} : Parts lead digits gap name trail →
    2 ^ 128 ≤ Nat.ofDigitChars 10 digits 0 →
    Flawed (lead ++ digits ++ gap ++ name ++ trail) .integerRange
  | unknownUnit {lead digits gap name trail : List Char} : Parts lead digits gap name trail →
    Nat.ofDigitChars 10 digits 0 < 2 ^ 128 → (¬ ∃ unit, Names name unit) →
    Flawed (lead ++ digits ++ gap ++ name ++ trail) (.unknownUnit (String.ofList name))
  | overflow {lead digits gap name trail : List Char} {unit : TimeUnit} :
    Parts lead digits gap name trail → Nat.ofDigitChars 10 digits 0 < 2 ^ 128 →
    Names name unit → longest < Nat.ofDigitChars 10 digits 0 * unit.nanos →
    Flawed (lead ++ digits ++ gap ++ name ++ trail) .overflow

theorem Flawed.ofChars {text : List Char} {flaw : DurationFlaw} (h : Flawed text flaw) :
    ofChars (trim text) = .error flaw := by
  cases h with
  | noInteger before stop => exact ofChars_noInteger before stop
  | integerRange parts wide => rw [parts.ofChars_eq, if_pos wide]
  | unknownUnit parts narrow unknown =>
    rw [parts.ofChars_eq, if_neg (Nat.not_le.mpr narrow), unitOf_error_iff.mpr ⟨unknown, rfl⟩]
    rfl
  | overflow parts narrow names beyond =>
    rw [parts.ofChars_eq, if_neg (Nat.not_le.mpr narrow), unitOf_ok_iff.mpr names]
    change Option.elim _ _ _ = _
    rw [ofNanos?_eq_none_iff.mpr beyond, Option.elim_none]

/-- A number, a unit, and their product that a duration can hold. White space may stand around and
between them. -/
inductive Spells : List Char → Duration → Prop
  | parts {lead digits gap name trail : List Char} {unit : TimeUnit} {duration : Duration} :
    Blank lead → digits ≠ [] → (∀ c ∈ digits, isDigit c = true) → Blank gap → Names name unit →
    Blank trail → Nat.ofDigitChars 10 digits 0 * unit.nanos ≤ longest →
    duration.nanos = Nat.ofDigitChars 10 digits 0 * unit.nanos →
    Spells (lead ++ digits ++ gap ++ name ++ trail) duration

theorem Spells.ofChars {text : List Char} {duration : Duration} (h : Spells text duration) :
    ofChars (trim text) = .ok duration := by
  cases h with
  | @parts lead digits gap name trail unit _ before some all between names behind fits same =>
    have narrow : ¬ 2 ^ 128 ≤ Nat.ofDigitChars 10 digits 0 := by
      have pos : 0 < unit.nanos := by cases unit <;> decide
      have product := Nat.le_mul_of_pos_right (Nat.ofDigitChars 10 digits 0) pos
      have beyond : longest < 2 ^ 128 := by decide
      omega
    have parts := Parts.of_names before between behind some all names
    rw [parts.ofChars_eq, if_neg narrow, unitOf_ok_iff.mpr names]
    change Option.elim _ _ _ = _
    rw [ofNanos?_eq_some_iff.mpr ⟨fits, same⟩, Option.elim_some]

theorem spells_or_flawed (text : List Char) :
    (∃ duration, Spells text duration) ∨ ∃ flaw, Flawed text flaw := by
  obtain ⟨lead, rest, rfl, before, stop⟩ | ⟨lead, digits, gap, name, trail, rfl, parts⟩ :=
    exists_parts text
  · exact .inr ⟨_, .noInteger before stop⟩
  · by_cases narrow : Nat.ofDigitChars 10 digits 0 < 2 ^ 128
    · by_cases known : ∃ unit, Names name unit
      · obtain ⟨unit, names⟩ := known
        by_cases fits : Nat.ofDigitChars 10 digits 0 * unit.nanos ≤ longest
        · exact .inl ⟨⟨_, fits_iff.mpr fits⟩, .parts parts.before parts.some parts.all parts.between
            names parts.behind fits rfl⟩
        · exact .inr ⟨_, .overflow parts narrow names (Nat.not_le.mp fits)⟩
      · exact .inr ⟨_, .unknownUnit parts narrow known⟩
    · exact .inr ⟨_, .integerRange parts (Nat.not_lt.mp narrow)⟩

theorem parse_ok_iff {text : String} {duration : Duration} :
    parse text = .ok duration ↔ Spells text.toList duration := by
  constructor
  · intro h
    obtain ⟨other, spells⟩ | ⟨flaw, flawed⟩ := spells_or_flawed text.toList
    · rw [parse, spells.ofChars] at h
      cases h
      exact spells
    · rw [parse, flawed.ofChars] at h
      cases h
  · intro h
    rw [parse, h.ofChars]
    rfl

theorem parse_error_iff {text : String} {error : DurationError} :
    parse text = .error error ↔ error.input = text ∧ Flawed text.toList error.flaw := by
  constructor
  · intro h
    obtain ⟨duration, spells⟩ | ⟨flaw, flawed⟩ := spells_or_flawed text.toList
    · rw [parse, spells.ofChars] at h
      cases h
    · rw [parse, flawed.ofChars] at h
      cases h
      exact ⟨rfl, flawed⟩
  · intro h
    obtain ⟨rfl, flawed⟩ := h
    rw [parse, flawed.ofChars]
    rfl

/-- What is read as a duration is a number and a unit whose product it can hold, and it is exactly
that product. For any other text the first thing that is wrong with it is reported, with the whole
of the text. -/
theorem parse_exact (text : String) :
    (∀ duration, parse text = .ok duration ↔ Spells text.toList duration) ∧
    ∀ error, parse text = .error error ↔ error.input = text ∧ Flawed text.toList error.flaw :=
  ⟨fun _ => parse_ok_iff, fun _ => parse_error_iff⟩

/-- The digits of a number are read back, with a name of the unit behind them. -/
theorem parse_toDigits {n : Nat} {gap name : List Char} {unit : TimeUnit} {duration : Duration}
    (between : Blank gap) (names : Names name unit) (same : duration.nanos = n * unit.nanos) :
    parse (String.ofList (Nat.toDigits 10 n ++ gap ++ name)) = .ok duration := by
  have none : Blank [] := by simp [Blank]
  have value : Nat.ofDigitChars 10 (Nat.toDigits 10 n) 0 = n := Nat.ofDigitChars_ten_toDigits
  have spells := Spells.parts none Nat.toDigits_ne_nil (isDigit_toDigits n) between names none
    (by rw [value, ← same]; exact fits_iff.mp duration.fits) (by rw [value, same])
  rw [parse_ok_iff, String.toList_ofList]
  simpa using spells

theorem parse_toString {n : Nat} (fits : n < wordLimit) :
    parse (toString n) = .ok (ofMillis n fits) := by
  have same : (ofMillis n fits).nanos = n * TimeUnit.milli.nanos := rfl
  have bare : parse (String.ofList (Nat.toDigits 10 n ++ [] ++ [])) = .ok (ofMillis n fits) :=
    parse_toDigits (by simp [Blank]) .none same
  rw [Nat.toString_eq_ofList_toDigits]
  simpa using bare

/-- A number and a name, with a space between them. -/
theorem spaced_eq (n : Nat) (name : String) :
    s!"{n} {name}" = String.ofList (Nat.toDigits 10 n ++ [' '] ++ name.toList) := by
  rw [Nat.toString_eq_ofList_toDigits, String.ofList_append, String.ofList_append,
    String.ofList_toList]
  rfl

theorem parse_spaced {n : Nat} {name : String} {unit : TimeUnit} {duration : Duration}
    (named : name ∈ unit.aliases) (same : duration.nanos = n * unit.nanos) :
    parse s!"{n} {name}" = .ok duration := by
  rw [spaced_eq]
  exact parse_toDigits (List.forall_mem_singleton.mpr rfl) (.given named) same

theorem parse_toString_ms {n : Nat} (fits : n < wordLimit) :
    parse s!"{n} ms" = .ok (ofMillis n fits) := by
  have spelled : s!"{n} ms" = s!"{n} " ++ "ms" := by
    rw [String.append_assoc]
    rfl
  have named : "ms" ∈ TimeUnit.milli.aliases := by decide
  have same : (ofMillis n fits).nanos = n * TimeUnit.milli.nanos := rfl
  rw [spelled]
  exact parse_spaced named same

end Duration
end Clickstream

import Clickstream.Proofs.Durations

namespace Clickstream

namespace TimeUnit

/-- What one of a unit is called. -/
def singular : TimeUnit → String
  | day => "day"
  | hour => "hour"
  | minute => "minute"
  | second => "second"
  | milli => "ms"
  | micro => "us"
  | nano => "ns"

/-- What any other number of them is called, which is the same for the units below a second. -/
def plural : TimeUnit → String
  | day => "days"
  | hour => "hours"
  | minute => "minutes"
  | second => "seconds"
  | milli => "ms"
  | micro => "us"
  | nano => "ns"

theorem label_eq (count : Nat) (unit : TimeUnit) :
    unit.label count = if count = 1 then unit.singular else unit.plural := by
  cases unit <;> simp [label, singular, plural]

/-- From a second up the number of units shows in their name. -/
theorem label_eq_singular_iff {count : Nat} {unit : TimeUnit} (long : nanosPerSecond ≤ unit.nanos) :
    unit.label count = unit.singular ↔ count = 1 := by
  have apart : ∀ unit ∈ all, nanosPerSecond ≤ unit.nanos → unit.plural ≠ unit.singular := by decide
  rw [label_eq]
  split
  case isTrue one => simp [one]
  case isFalse some => simp [some, apart unit unit.mem_all long]

/-- What is written beside a count is a name that is read. -/
theorem label_mem_aliases (count : Nat) (unit : TimeUnit) : unit.label count ∈ unit.aliases := by
  rw [label_eq]
  split <;> cases unit <;> decide

theorem all_descending : all.Pairwise fun before after => after.nanos ≤ before.nanos := by decide

end TimeUnit

namespace Duration

/-- The units stand from the longest to the shortest, so the first that will do is the longest. -/
theorem exactUnit_longest (duration : Duration) :
    duration.exactUnit.nanos ∣ duration.nanos ∧ ∀ other : TimeUnit,
      other.nanos ∣ duration.nanos → other.nanos ≤ duration.exactUnit.nanos := by
  have some : (TimeUnit.all.find? fun unit => duration.nanos % unit.nanos = 0).isSome :=
    List.find?_isSome.mpr ⟨.nano, by decide, by simp [TimeUnit.nanos, Nat.mod_one]⟩
  obtain ⟨unit, found⟩ := Option.isSome_iff_exists.mp some
  obtain ⟨exact, before, after, split, passed⟩ := List.find?_eq_some_iff_append.mp found
  have chosen : duration.exactUnit = unit := by rw [exactUnit, found, Option.getD_some]
  have descending := TimeUnit.all_descending
  rw [split, List.pairwise_append, List.pairwise_cons] at descending
  rw [chosen]
  refine ⟨Nat.dvd_of_mod_eq_zero (by simpa using exact), fun other divides => ?_⟩
  have mem := other.mem_all
  rw [split] at mem
  rcases List.mem_append.mp mem with earlier | later
  · have remains := passed other earlier
    simp [Nat.mod_eq_zero_of_dvd divides] at remains
  · rcases List.mem_cons.mp later with rfl | shorter
    · exact Nat.le_refl _
    · exact descending.2.1.1 other shorter

theorem parse_format (duration : Duration) : parse duration.format = .ok duration := by
  unfold format
  split
  case isTrue zero =>
    have named : "ms" ∈ TimeUnit.milli.aliases := by decide
    have same : duration.nanos = 0 * TimeUnit.milli.nanos := by rw [zero, Nat.zero_mul]
    have spelled : "0 ms" = s!"{0} " ++ "ms" := rfl
    rw [spelled]
    exact parse_spaced named same
  case isFalse =>
    have product := (Nat.div_mul_cancel duration.exactUnit_longest.1).symm
    exact parse_spaced (TimeUnit.label_mem_aliases _ _) product

/-- What is written is read back as the same duration. It is a whole number of the longest unit that
gives one, and the unit is named in the singular for one of it alone. -/
theorem format_exact (duration : Duration) :
    parse duration.format = .ok duration ∧
    if duration.nanos = 0 then duration.format = "0 ms"
    else ∃ (unit : TimeUnit) (count : Nat) (name : String),
      duration.format = s!"{count} {name}" ∧ duration.nanos = count * unit.nanos ∧
      (∀ other : TimeUnit, other.nanos ∣ duration.nanos → other.nanos ≤ unit.nanos) ∧
      name = (if count = 1 then unit.singular else unit.plural) ∧
      (nanosPerSecond ≤ unit.nanos → (name = unit.singular ↔ count = 1)) := by
  refine ⟨duration.parse_format, ?_⟩
  split
  case isTrue zero => exact if_pos zero
  case isFalse some =>
    obtain ⟨divides, longest⟩ := duration.exactUnit_longest
    exact ⟨duration.exactUnit, duration.nanos / duration.exactUnit.nanos, _, if_neg some,
      (Nat.div_mul_cancel divides).symm, longest, TimeUnit.label_eq _ _,
      TimeUnit.label_eq_singular_iff⟩

/-- An hour and a half is no whole number of hours. -/
theorem format_exact_minutes :
    let duration : Duration := ⟨90 * 60 * nanosPerSecond, by decide⟩
    duration.format = "90 minutes" ∧ parse duration.format = .ok duration ∧
      ∃ (unit : TimeUnit) (count : Nat) (name : String), duration.format = s!"{count} {name}" ∧
        TimeUnit.minute.nanos ≤ unit.nanos ∧ (name = unit.singular ↔ count = 1) := by
  intro duration
  have written : duration.format = "90 minutes" := by decide +kernel
  have divides : TimeUnit.minute.nanos ∣ duration.nanos := ⟨90, by decide⟩
  have second : nanosPerSecond ≤ TimeUnit.minute.nanos := by decide
  obtain ⟨read, shape⟩ := format_exact duration
  rw [if_neg (by decide)] at shape
  obtain ⟨unit, count, name, spelled, -, longest, -, single⟩ := shape
  have minute := longest .minute divides
  exact ⟨written, read, unit, count, name, spelled, minute, single (Nat.le_trans second minute)⟩

end Duration
end Clickstream

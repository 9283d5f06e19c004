import Clickstream.Wire.Read
import Mathlib.Algebra.Group.Int.Defs
import Mathlib.Algebra.Group.Nat.Defs

namespace Clickstream

/-- Which bytes stand for which value. -/
abbrev Grammar (α : Type) := List UInt8 → α → Prop

namespace Reader

variable {α β : Type}

/-- A reader that takes from the front of its input what the grammar has for a value, and nothing
else. A grammar that has two beginnings of one input has no such reader. -/
def Exact (step : Reader α) (grammar : Grammar α) : Prop :=
  ∀ input value rest, step input = .ok value rest ↔
    ∃ taken, input = taken ++ rest ∧ grammar taken value

theorem map_ok_iff {f : α → β} {step : Reader α} {input rest : List UInt8} {b : β} :
    (f <$> step) input = .ok b rest ↔ ∃ a, step input = .ok a rest ∧ b = f a := by
  simp only [Functor.map, EStateM.map]
  cases step input with
  | ok a mid =>
    simp only [EStateM.Result.ok.injEq]
    constructor
    · intro h
      obtain ⟨rfl, rfl⟩ := h
      exact ⟨a, ⟨rfl, rfl⟩, rfl⟩
    · intro h
      obtain ⟨_, ⟨rfl, rfl⟩, rfl⟩ := h
      exact ⟨rfl, rfl⟩
  | error => simp

theorem bind_ok_iff {first : Reader α} {second : α → Reader β} {input rest : List UInt8} {b : β} :
    (first >>= second) input = .ok b rest ↔
      ∃ a mid, first input = .ok a mid ∧ second a mid = .ok b rest := by
  simp only [Bind.bind, EStateM.bind]
  cases first input with
  | ok a mid =>
    constructor
    · intro h
      exact ⟨a, mid, rfl, h⟩
    · intro k
      obtain ⟨_, _, h, done⟩ := k
      cases h
      exact done
  | error => simp

/-- Two steps come to the same if they do so behind whatever the first one may take. -/
theorem bind_congr_ok {first : Reader α} {second other : α → Reader β} {input : List UInt8}
    (h : ∀ a rest, first input = .ok a rest → second a rest = other a rest) :
    (first >>= second) input = (first >>= other) input := by
  simp only [Bind.bind, EStateM.bind]
  cases found : first input with
  | ok a rest => exact h a rest found
  | error => rfl

theorem within_ok_iff {segment : Segment} {step : Reader α} {input rest : List UInt8} {a : α} :
    within segment step input = .ok a rest ↔ step input = .ok a rest := by
  simp only [within]
  cases step input <;> simp

namespace Exact

theorem congr {step : Reader α} {grammar grammar' : Grammar α} (h : Exact step grammar)
    (same : ∀ taken value, grammar taken value ↔ grammar' taken value) : Exact step grammar' := by
  intro input value rest
  simp only [h input value rest, same]

theorem pure (a : α) : Exact (pure a) fun taken value => taken = [] ∧ value = a := by
  intro input value rest
  change EStateM.Result.ok a input = .ok value rest ↔ _
  simp only [EStateM.Result.ok.injEq]
  constructor
  · intro h
    obtain ⟨rfl, rfl⟩ := h
    exact ⟨[], rfl, rfl, rfl⟩
  · intro h
    obtain ⟨_, rfl, rfl, rfl⟩ := h
    exact ⟨rfl, rfl⟩

theorem refuse (corruption : Corruption) :
    Exact (Reader.refuse corruption : Reader α) fun _ _ => False := by
  intro input value rest
  change EStateM.Result.error (Located.here corruption) input = .ok value rest ↔ _
  simp

theorem map (f : α → β) {step : Reader α} {grammar : Grammar α} (h : Exact step grammar) :
    Exact (f <$> step) fun taken b => ∃ a, grammar taken a ∧ b = f a := by
  intro input value rest
  simp only [map_ok_iff, h input _ rest]
  constructor
  · intro k
    obtain ⟨a, ⟨taken, split, ha⟩, rfl⟩ := k
    exact ⟨taken, split, a, ha, rfl⟩
  · intro k
    obtain ⟨taken, split, a, ha, rfl⟩ := k
    exact ⟨a, ⟨taken, split, ha⟩, rfl⟩

/-- What follows is asked to be exact only after values that can come first. -/
theorem bind {first : Reader α} {second : α → Reader β} {grammar : Grammar α}
    (h : Exact first grammar) (next : α → Grammar β)
    (k : ∀ a front, grammar front a → Exact (second a) (next a)) :
    Exact (first >>= second) fun taken b =>
      ∃ front back a, taken = front ++ back ∧ grammar front a ∧ next a back b := by
  intro input value rest
  rw [bind_ok_iff]
  constructor
  · intro given
    obtain ⟨a, mid, one, two⟩ := given
    obtain ⟨front, rfl, ha⟩ := (h _ _ _).mp one
    obtain ⟨back, rfl, hb⟩ := (k a front ha _ _ _).mp two
    exact ⟨front ++ back, by simp, front, back, a, rfl, ha, hb⟩
  · intro given
    obtain ⟨taken, rfl, front, back, a, rfl, ha, hb⟩ := given
    exact ⟨a, back ++ rest, (h _ _ _).mpr ⟨front, by simp, ha⟩,
      (k a front ha _ _ _).mpr ⟨back, rfl, hb⟩⟩

/-- What follows may look at the value that was read, but takes nothing more. -/
theorem check {first : Reader α} {second : α → Reader β} {grammar : Grammar α}
    (h : Exact first grammar) (fits : α → β → Prop)
    (k : ∀ a front, grammar front a → Exact (second a) fun taken b => taken = [] ∧ fits a b) :
    Exact (first >>= second) fun taken b => ∃ a, grammar taken a ∧ fits a b := by
  refine (h.bind _ k).congr fun taken b => ?_
  constructor
  · intro given
    obtain ⟨front, back, a, rfl, ha, rfl, hb⟩ := given
    exact ⟨a, by simpa using ha, hb⟩
  · intro given
    obtain ⟨a, ha, hb⟩ := given
    exact ⟨taken, [], a, by simp, ha, rfl, hb⟩

theorem within (segment : Segment) {step : Reader α} {grammar : Grammar α}
    (h : Exact step grammar) : Exact (within segment step) grammar := by
  intro input value rest
  rw [within_ok_iff, h input value rest]

theorem readBlock (count : Nat) :
    Exact (Datum.readBlock count) fun taken data => data.length = count ∧ taken = data := by
  intro input value rest
  by_cases short : input.length < count
  · rw [Wire.readBlock_short short]
    simp only [reduceCtorEq, false_iff]
    intro h
    obtain ⟨taken, rfl, rfl, rfl⟩ := h
    simp only [List.length_append] at short
    omega
  · rw [Wire.readBlock_enough (Nat.le_of_not_lt short), EStateM.Result.ok.injEq]
    constructor
    · intro h
      obtain ⟨rfl, rfl⟩ := h
      exact ⟨input.take count, by simp, by simp; omega, rfl⟩
    · intro h
      obtain ⟨taken, rfl, rfl, rfl⟩ := h
      simp

theorem readByte : Exact Datum.readByte fun taken byte => taken = [byte] := by
  intro input value rest
  cases input with
  | nil =>
    rw [Wire.readByte_nil]
    simp
  | cons byte tail =>
    rw [Wire.readByte_cons, EStateM.Result.ok.injEq]
    constructor
    · intro h
      obtain ⟨rfl, rfl⟩ := h
      exact ⟨[byte], rfl, rfl⟩
    · intro h
      obtain ⟨_, split, rfl⟩ := h
      exact List.cons.inj split

end Exact

end Reader

end Clickstream

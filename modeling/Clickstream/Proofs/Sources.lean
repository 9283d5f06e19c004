import Clickstream.Proofs.Concord
import Clickstream.Wire.Stepwise

namespace Clickstream.Source
open Datum Machine

variable {σ κ : Type} {unread : σ → List UInt8} {kept : σ → κ} {α β : Type}

/-- A step that does to a source what another one does to the bytes that are left in it. -/
def Answers (unread : σ → List UInt8) (kept : σ → κ) (step : Machine (Located Corruption) σ α)
    (told : Machine (Located Corruption) (List UInt8) α) : Prop :=
  ∀ source, Alike (Left unread kept source) (step source) (told (unread source))

namespace Answers

theorem pure (a : α) : Answers unread kept (Pure.pure a) (Pure.pure a) := fun source =>
  .ok (.refl source)

theorem stop (failure : Failure (Located Corruption)) :
    Answers unread kept (throw failure : Machine (Located Corruption) σ α) (throw failure) :=
  fun source => .error (.refl source)

theorem bind {first : Machine (Located Corruption) σ α}
    {told : Machine (Located Corruption) (List UInt8) α}
    {second : α → Machine (Located Corruption) σ β}
    {others : α → Machine (Located Corruption) (List UInt8) β} (h : Answers unread kept first told)
    (k : ∀ a, Answers unread kept (second a) (others a)) :
    Answers unread kept (first >>= second) (told >>= others) := by
  intro source
  have same := h source
  simp only [Bind.bind, EStateM.bind]
  generalize first source = found, told (unread source) = answer at same ⊢
  cases same with
  | error left => exact .error left
  | @ok a middle tail left =>
    have later := k a middle
    rw [left.unread_eq] at later
    exact later.mono fun after rest ends => left.trans ends

theorem inside {step : Machine (Located Corruption) σ α}
    {told : Machine (Located Corruption) (List UInt8) α} (outward : Located Corruption → _)
    (h : Answers unread kept step told) :
    Answers unread kept (inside outward step) (inside outward told) := by
  intro source
  have same := h source
  simp only [Machine.inside]
  generalize step source = found, told (unread source) = answer at same ⊢
  cases same with
  | ok left => exact .ok left
  | @error failure _ _ left => cases failure <;> exact .error left

variable [Source σ]

/-- Turns come to the same, as each leaves as much of the source as of its bytes. -/
theorem loop (h : Lawful unread kept) {turn : β → Machine (Located Corruption) σ (β ⊕ α)}
    {other : β → Machine (Located Corruption) (List UInt8) (β ⊕ α)}
    (turns : ∀ b, Answers unread kept (turn b) (other b)) (b : β) :
    Answers unread kept (Machine.loop (fun _ source => remaining source) turn b)
      (Machine.loop (fun _ input => remaining input) other b) := by
  intro source
  have available (source : σ) : remaining source = (unread source).length := h.remaining_eq source
  -- By induction on the bytes left. Both loops go on as long as a turn leaves fewer of them.
  generalize size : (unread source).length = n
  induction n using Nat.strongRecOn generalizing source b with
  | ind n ih =>
    have same := turns b source
    generalize mine : turn b source = found, its : other b (unread source) = answer at same
    cases same with
    | error left =>
      rw [loop_failed mine, loop_failed its]
      exact .error left
    | @ok outcome middle tail left =>
      cases outcome with
      | inr value =>
        rw [loop_done mine, loop_done its]
        exact .ok left
      | inl next =>
        have leaves : remaining middle = remaining tail := by
          rw [available, left.unread_eq]
          rfl
        have all : remaining source = remaining (unread source) := available source
        by_cases less : tail.length < (unread source).length
        · have shorter : remaining middle < remaining source := by
            rw [leaves, all]
            exact less
          rw [loop_next mine shorter, loop_next its less]
          have later := ih (unread middle).length (by rw [left.unread_eq]; omega) next middle rfl
          rw [left.unread_eq] at later
          exact later.mono fun after rest ends => left.trans ends
        · have longer : ¬ remaining middle < remaining source := by
            rw [leaves, all]
            exact less
          rw [loop_endless mine longer, loop_endless its less]
          exact .error left

theorem fewer? (h : Lawful unread kept) (count : Nat) :
    Answers unread kept (Reads.fewer? count) (Reads.fewer? count) := by
  intro source
  have available : remaining source = remaining (unread source) := h.remaining_eq source
  simp only [Reads.fewer?, available]
  exact .ok (.refl source)

theorem require (h : Lawful unread kept) (count : Nat) :
    Answers unread kept (Datum.require count) (Datum.require count) := by
  refine (fewer? h count).bind fun available => ?_
  cases available with
  | none => exact pure ()
  | some available => exact stop _

theorem byte (h : Lawful unread kept) : Answers unread kept Reads.byte Reads.byte := by
  intro source
  have available : remaining source = remaining (unread source) := h.remaining_eq source
  have same := h.next_left source
  simp only [Reads.byte, available]
  generalize next? source = found, next? (unread source) = told at same ⊢
  cases same with
  | none => exact .error (.refl source)
  | @some found told pair =>
    obtain ⟨byte, middle⟩ := found
    obtain ⟨_, tail⟩ := told
    obtain ⟨rfl, left⟩ := pair
    exact .ok left

theorem copy (h : Lawful unread kept) (count : Nat) :
    Answers unread kept (Reads.copy count) (Reads.copy count) := by
  intro source
  have available : remaining source = remaining (unread source) := h.remaining_eq source
  have same := h.copy_left source count
  simp only [Reads.copy, available]
  generalize copy? source count = found, copy? (unread source) count = told at same ⊢
  cases same with
  | none => exact .error (.refl source)
  | @some found told pair =>
    obtain ⟨data, middle⟩ := found
    obtain ⟨_, tail⟩ := told
    obtain ⟨rfl, left⟩ := pair
    exact .ok left

theorem shift (word : Nat → UInt64) (amount : Nat) :
    Answers unread kept (Reads.shift word amount) (Reads.shift word amount) := by
  simp only [Reads.shift, Machine.shift]
  split
  · exact pure _
  · exact stop _

theorem add (left right : Nat) :
    Answers unread kept (Reads.add left right) (Reads.add left right) := by
  simp only [Reads.add, Machine.add]
  split
  · exact pure _
  · exact stop _

theorem negate (n : Int64) : Answers unread kept (Reads.negate n) (Reads.negate n) := by
  simp only [Reads.negate, Machine.negate]
  split
  · exact stop _
  · exact pure _

theorem readByte (h : Lawful unread kept) :
    Answers unread kept Datum.readByte Datum.readByte := (require h 1).bind fun _ => byte h

theorem readGroup (h : Lawful unread kept) (b : Nat × UInt64) :
    Answers unread kept (Datum.readGroup b) (Datum.readGroup b) := by
  refine (readByte h).bind fun byte => ?_
  split
  · exact stop _
  refine (shift _ _).bind fun group => ?_
  split
  · exact pure _
  · exact (add _ _).bind fun amount => pure _

theorem readLong (h : Lawful unread kept) :
    Answers unread kept Datum.readLong Datum.readLong := by
  refine (loop h (readGroup h) (0, 0)).bind fun code => ?_
  exact (shift _ _).bind fun half => (negate _).bind fun sign => pure _

end Answers

/-- A lawful source answers as its bytes do. -/
theorem Lawful.concord [Source σ] (h : Lawful unread kept) :
    Concord (Machine (Located Corruption) σ) (Machine (Located Corruption) (List UInt8))
      (Answers unread kept) where
  pure := Answers.pure
  bind := Answers.bind
  refuse _ _ _ := fun source => .error (.refl source)
  within segment step := step.inside (Located.within segment)
  fewer? := Answers.fewer? h
  negate _ := Answers.negate _
  readByte := Answers.readByte h
  readBlock count := (Answers.require h count).bind fun _ => Answers.copy h count
  readLong := Answers.readLong h
  blocks _ _ turns := Answers.loop h turns (0, #[])

end Clickstream.Source

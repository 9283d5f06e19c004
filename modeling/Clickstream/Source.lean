import Clickstream.Buffer

namespace Clickstream

/-- Where bytes are read from: how many are left, the next few of them, and a way past them. There
is no way past the end. -/
class Source (σ : Type) where
  remaining : σ → Nat
  chunk : σ → List UInt8
  advance? : σ → Nat → Option σ

instance : Source (List UInt8) where
  remaining := List.length
  chunk bytes := bytes
  advance? bytes count := if Wire.shorterThan bytes count then none else some (bytes.drop count)

instance : Source View where
  remaining := View.remaining
  chunk := View.unread
  advance? := View.advance?

namespace Source

section Left

variable {σ κ : Type}

/-- What is left of a source, beside what is left of its bytes. -/
structure Left (unread : σ → List UInt8) (kept : σ → κ) (source after : σ) (rest : List UInt8) :
    Prop where
  unread_eq : unread after = rest
  kept_eq : kept after = kept source
  suffix : rest <:+ unread source

variable {unread : σ → List UInt8} {kept : σ → κ}

theorem Left.refl (source : σ) : Left unread kept source source (unread source) :=
  ⟨rfl, rfl, List.suffix_refl _⟩

theorem Left.trans {source middle after : σ} {tail rest : List UInt8}
    (first : Left unread kept source middle tail)
    (second : Left unread kept middle after rest) : Left unread kept source after rest where
  unread_eq := second.unread_eq
  kept_eq := second.kept_eq.trans first.kept_eq
  suffix := (first.unread_eq ▸ second.suffix).trans first.suffix

end Left

variable {σ κ : Type} [Source σ]

/-- The next byte and what is behind it. -/
def next? (source : σ) : Option (UInt8 × σ) :=
  if remaining source < 1 then none
  else do
    let byte ← (chunk source).head?
    let rest ← advance? source 1
    return (byte, rest)

/-- Copies one chunk after the other, the last as far as it is wanted. A chunk of nothing would come
again and again. -/
def gather (source : σ) (count : Nat) : Option (List UInt8 × σ) :=
  if count = 0 then some ([], source)
  else
    let size := min (chunk source).length count
    if size = 0 then none
    else do
      let rest ← advance? source size
      let (data, rest) ← gather rest (count - size)
      return ((chunk source).take size ++ data, rest)
termination_by count

/-- Exactly so many bytes, or none at all. -/
def copy? (source : σ) (count : Nat) : Option (List UInt8 × σ) :=
  if remaining source < count then none else gather source count

/-- What a reader relies on: that a chunk is the beginning of the bytes that are left and is nothing
only if none are, and that moving past some leaves the others and changes nothing else. -/
structure Lawful (unread : σ → List UInt8) (kept : σ → κ) : Prop where
  remaining_eq : ∀ source : σ, remaining source = (unread source).length
  chunk_prefix : ∀ source : σ, chunk source <+: unread source
  chunk_ne_nil : ∀ source : σ, unread source ≠ [] → chunk source ≠ []
  advance_inside : ∀ (source : σ) (count : Nat), count ≤ remaining source → ∃ rest,
    advance? source count = some rest ∧ unread rest = (unread source).drop count ∧
      kept rest = kept source
  advance_beyond : ∀ (source : σ) (count : Nat), remaining source < count →
    advance? source count = none

theorem lawful_bytes : Lawful (fun bytes : List UInt8 => bytes) fun _ => () where
  remaining_eq _ := rfl
  chunk_prefix bytes := List.prefix_refl bytes
  chunk_ne_nil _ some := some
  advance_inside bytes count inside := by
    refine ⟨bytes.drop count, if_neg ?_, rfl, rfl⟩
    rw [Wire.shorterThan_iff]
    exact Nat.not_lt_of_le inside
  advance_beyond bytes count beyond := if_pos ((Wire.shorterThan_iff bytes count).mpr beyond)

theorem lawful_view : Lawful View.unread View.length where
  remaining_eq _ := rfl
  chunk_prefix view := List.prefix_refl view.unread
  chunk_ne_nil _ some := some
  advance_inside view count inside := by
    refine ⟨⟨view.unread.drop count, view.length⟩, if_neg ?_, rfl, rfl⟩
    rw [Wire.shorterThan_iff]
    exact Nat.not_lt_of_le inside
  advance_beyond view count beyond := if_pos ((Wire.shorterThan_iff view.unread count).mpr beyond)

namespace Lawful

variable {unread : σ → List UInt8} {kept : σ → κ} (source : σ)

theorem next_none (h : Lawful unread kept) (ends : unread source = []) : next? source = none := by
  unfold next?
  simp [h.remaining_eq, ends]

theorem next_some (h : Lawful unread kept) {byte : UInt8} {tail : List UInt8}
    (begins : unread source = byte :: tail) :
    ∃ rest, next? source = some (byte, rest) ∧ unread rest = tail ∧ kept rest = kept source := by
  have inside : 1 ≤ remaining source := by simp [h.remaining_eq, begins]
  obtain ⟨rest, advanced, left, same⟩ := h.advance_inside source 1 inside
  obtain ⟨others, split⟩ := h.chunk_prefix source
  have some := h.chunk_ne_nil source (by simp [begins])
  rw [begins] at split left
  refine ⟨rest, ?_, left, same⟩
  unfold next?
  rw [if_neg (Nat.not_lt_of_le inside), advanced]
  cases found : chunk source with
  | nil => exact absurd found some
  | cons first more =>
    rw [found] at split
    obtain ⟨rfl, -⟩ := List.cons.inj split
    rfl

/-- However the bytes are cut into chunks, they come out as they are left. -/
theorem gather_some (h : Lawful unread kept) {count : Nat}
    (inside : count ≤ (unread source).length) :
    ∃ rest, gather source count = some ((unread source).take count, rest) ∧
      unread rest = (unread source).drop count ∧ kept rest = kept source := by
  induction count using Nat.strongRecOn generalizing source with
  | ind count ih =>
    unfold gather
    by_cases done : count = 0
    · exact ⟨source, by simp [done], by simp [done], rfl⟩
    have left : unread source ≠ [] := by
      intro ends
      simp only [ends, List.length_nil] at inside
      omega
    have some : (chunk source).length ≠ 0 := by simpa using h.chunk_ne_nil source left
    -- A chunk is the beginning of what is left, and so is as much of it as is wanted.
    have front : (chunk source).take (min (chunk source).length count) =
        (unread source).take (min (chunk source).length count) := by
      obtain ⟨others, split⟩ := h.chunk_prefix source
      rw [← split, List.take_append_of_le_length (Nat.min_le_left _ _)]
    generalize size_eq : min (chunk source).length count = size at front
    obtain ⟨middle, advanced, behind, same⟩ := h.advance_inside source size
      (by rw [h.remaining_eq]; omega)
    obtain ⟨rest, gathered, last, same'⟩ := ih (count - size) (by omega) middle
      (by rw [behind, List.length_drop]; omega)
    refine ⟨rest, ?_, ?_, same'.trans same⟩
    · simp only [if_neg done, if_neg (show size ≠ 0 by omega), advanced, gathered, front, behind,
        Option.bind_eq_bind, Option.bind_some, Option.pure_def]
      rw [← List.take_add, Nat.add_sub_cancel' (by omega)]
    · rw [last, behind, List.drop_drop, Nat.add_sub_cancel' (by omega)]

theorem copy_none (h : Lawful unread kept) {count : Nat}
    (beyond : (unread source).length < count) : copy? source count = none :=
  if_pos (by rwa [h.remaining_eq])

theorem copy_some (h : Lawful unread kept) {count : Nat}
    (inside : count ≤ (unread source).length) :
    ∃ rest, copy? source count = some ((unread source).take count, rest) ∧
      unread rest = (unread source).drop count ∧ kept rest = kept source := by
  unfold copy?
  rw [h.remaining_eq, if_neg (Nat.not_lt_of_le inside)]
  exact h.gather_some source inside

end Lawful

section

variable {unread : σ → List UInt8} {kept : σ → κ}

/-- A lawful source moves if its bytes do, and so for the other methods. -/
theorem Lawful.advance_left (h : Lawful unread kept) (source : σ) (count : Nat) :
    Option.Rel (Left unread kept source) (advance? source count)
      (advance? (unread source) count) := by
  by_cases inside : count ≤ (unread source).length
  · obtain ⟨after, moved, behind, same⟩ := h.advance_inside source count (by rwa [h.remaining_eq])
    obtain ⟨_, moved', rfl, -⟩ := lawful_bytes.advance_inside (unread source) count inside
    rw [moved, moved']
    exact .some ⟨behind, same, List.drop_suffix count _⟩
  · have beyond := Nat.lt_of_not_le inside
    rw [h.advance_beyond source count (by rwa [h.remaining_eq]),
      lawful_bytes.advance_beyond (unread source) count beyond]
    exact .none

theorem Lawful.next_left (h : Lawful unread kept) (source : σ) :
    Option.Rel (fun found told => found.1 = told.1 ∧ Left unread kept source found.2 told.2)
      (next? source) (next? (unread source)) := by
  cases left : unread source with
  | nil =>
    rw [h.next_none source left, lawful_bytes.next_none [] rfl]
    exact .none
  | cons byte tail =>
    obtain ⟨after, given, behind, same⟩ := h.next_some source left
    obtain ⟨_, given', rfl, -⟩ := lawful_bytes.next_some (byte :: tail) rfl
    rw [given, given']
    exact .some ⟨rfl, behind, same, left ▸ List.suffix_cons byte _⟩

theorem Lawful.copy_left (h : Lawful unread kept) (source : σ) (count : Nat) :
    Option.Rel (fun found told => found.1 = told.1 ∧ Left unread kept source found.2 told.2)
      (copy? source count) (copy? (unread source) count) := by
  by_cases inside : count ≤ (unread source).length
  · obtain ⟨after, given, behind, same⟩ := h.copy_some source inside
    obtain ⟨_, given', rfl, -⟩ := lawful_bytes.copy_some (unread source) inside
    rw [given, given']
    exact .some ⟨rfl, behind, same, List.drop_suffix count _⟩
  · have beyond := Nat.lt_of_not_le inside
    rw [h.copy_none source beyond, lawful_bytes.copy_none (unread source) beyond]
    exact .none

end

theorem Left.view_eq {view after : View} {rest : List UInt8}
    (left : Left View.unread View.length view after rest) : after = ⟨rest, view.length⟩ := by
  rw [← left.unread_eq, ← left.kept_eq]

/-- What a view hands out at once comes to the same byte by byte and chunk by chunk. -/
theorem next?_view (view : View) : next? view = view.next? := by
  unfold View.next?
  cases left : view.unread with
  | nil => exact lawful_view.next_none view left
  | cons byte tail =>
    obtain ⟨after, given, behind, whole⟩ := lawful_view.next_some view left
    rw [given, ← behind, ← whole]

theorem copy?_view (view : View) (count : Nat) : copy? view count = view.take? count := by
  unfold View.take? View.advance?
  by_cases inside : count ≤ view.unread.length
  · obtain ⟨after, given, behind, whole⟩ := lawful_view.copy_some view inside
    have room : ¬ Wire.shorterThan view.unread count = true := by
      rw [Wire.shorterThan_iff]
      omega
    rw [given, if_neg room, ← behind, ← whole]
    rfl
  · have beyond := Nat.lt_of_not_le inside
    rw [lawful_view.copy_none view beyond, if_pos ((Wire.shorterThan_iff _ _).mpr beyond)]
    rfl

end Source

end Clickstream

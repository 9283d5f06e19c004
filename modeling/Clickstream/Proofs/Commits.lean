import Clickstream.Proofs.Growth
import Clickstream.SharedHint

namespace Clickstream.CapacityHint

variable {hint next first middle last : CapacityHint} {access : Access}
  {history before after : List Access} {caller observed size value : Nat} {committed : Bool}

theorem Step.proposal_iff (h : Step hint (.proposal caller observed committed) next) :
    (committed = true ↔ hint.current = observed) ∧
      next.current = if committed then nextCapacity observed else hint.current := by
  cases h
  by_cases same : hint.current = observed <;> simp [CapacityHint.propose, same]

theorem Step.read_eq (h : Step hint (.read caller value) next) :
    value = hint.current ∧ next = hint := by
  cases h
  exact ⟨rfl, rfl⟩

/-- A step grows the hint if it commits, and else leaves it. -/
theorem Step.current (h : Step hint access next) :
    next.current = if access.committed then nextCapacity hint.current else hint.current := by
  cases access with
  | read caller value =>
    obtain ⟨-, rfl⟩ := h.read_eq
    rfl
  | proposal caller observed committed =>
    obtain ⟨matched, moved⟩ := h.proposal_iff
    rw [moved]
    cases committed with
    | false => rfl
    | true => rw [matched.mp rfl, Access.committed]

theorem Step.commits (h : Step hint access next) (grows : access.commits size = true) :
    hint.current = size ∧ next.current = nextCapacity size := by
  cases access with
  | read caller value => cases grows
  | proposal caller observed committed =>
    obtain ⟨rfl, rfl⟩ : committed = true ∧ observed = size := by simpa [Access.commits] using grows
    obtain ⟨matched, moved⟩ := h.proposal_iff
    exact ⟨matched.mp rfl, moved⟩

/-- A proposal that was ever worth making is satisfied after it, by this caller or another. -/
theorem Step.passed (h : Step hint (.proposal caller observed committed) next)
    (had : observed ≤ hint.current) (small : observed < Size.largest) :
    observed < next.current := by
  obtain ⟨matched, moved⟩ := h.proposal_iff
  cases committed with
  | true =>
    rw [moved]
    exact lt_nextCapacity small
  | false =>
    have missed : hint.current ≠ observed := fun same => Bool.noConfusion (matched.mpr same)
    rw [moved]
    exact Nat.lt_of_le_of_ne had missed.symm

theorem Step.mono (h : Step hint access next) (range : hint.current ≤ Size.largest) :
    hint.current ≤ next.current ∧ next.current ≤ Size.largest := by
  rw [h.current]
  split
  · exact ⟨le_nextCapacity range, nextCapacity_le_largest _⟩
  · exact ⟨Nat.le_refl _, range⟩

namespace Run

theorem append_iff : Run first (before ++ after) last ↔
    ∃ middle, Run first before middle ∧ Run middle after last := by
  induction before generalizing first with
  | nil =>
    constructor
    · intro run
      exact ⟨first, .done first, run⟩
    · intro parts
      obtain ⟨_, ⟨⟩, run⟩ := parts
      exact run
  | cons access before ih =>
    constructor
    · intro run
      cases run with
      | next step rest =>
        obtain ⟨middle, one, two⟩ := ih.mp rest
        exact ⟨middle, .next step one, two⟩
    · intro parts
      obtain ⟨middle, one, two⟩ := parts
      cases one with
      | next step rest => exact .next step (ih.mpr ⟨middle, rest, two⟩)

/-- The hint goes through its growth, a step for each commit. -/
theorem current (run : Run first history last) :
    last.current = growth first.current (history.countP Access.committed) := by
  induction run with
  | done hint => rfl
  | @next first second last access history step _ ih =>
    rw [ih, step.current, List.countP_cons]
    cases access.committed with
    | false => rfl
    | true => exact growth_next first.current _

theorem mono (run : Run first history last) (range : first.current ≤ Size.largest) :
    first.current ≤ last.current ∧ last.current ≤ Size.largest := by
  induction run with
  | done hint => exact ⟨Nat.le_refl _, range⟩
  | next step _ ih =>
    obtain ⟨le, range⟩ := step.mono range
    obtain ⟨le', range⟩ := ih range
    exact ⟨Nat.le_trans le le', range⟩

/-- What is read later is no less. -/
theorem le_read (run : Run first history last) (range : first.current ≤ Size.largest)
    (mem : .read caller value ∈ history) : first.current ≤ value := by
  obtain ⟨before, after, rfl⟩ := List.append_of_mem mem
  obtain ⟨hint, earlier, rest⟩ := append_iff.mp run
  cases rest with
  | next step _ =>
    obtain ⟨rfl, -⟩ := step.read_eq
    exact (earlier.mono range).1

theorem read_le (run : Run first history last) (range : first.current ≤ Size.largest)
    (mem : .read caller value ∈ history) : value ≤ last.current := by
  obtain ⟨before, after, rfl⟩ := List.append_of_mem mem
  obtain ⟨hint, earlier, rest⟩ := append_iff.mp run
  cases rest with
  | next step later =>
    obtain ⟨rfl, rfl⟩ := step.read_eq
    exact (later.mono (earlier.mono range).2).1

/-- A size that the hint has passed is not grown from again. -/
theorem countP_commits_passed (run : Run first history last)
    (range : first.current ≤ Size.largest) (passed : size < first.current) :
    history.countP (Access.commits size) = 0 := by
  induction run with
  | done hint => rfl
  | next step _ ih =>
    obtain ⟨le, range'⟩ := step.mono range
    have other : ¬ Access.commits size _ = true := fun grows =>
      absurd (step.commits grows).1 (Nat.ne_of_gt passed)
    rw [List.countP_cons_of_neg other]
    exact ih range' (Nat.lt_of_lt_of_le passed le)

theorem countP_commits_le_one (run : Run first history last)
    (range : first.current ≤ Size.largest) (small : size < Size.largest) :
    history.countP (Access.commits size) ≤ 1 := by
  induction run with
  | done hint => exact Nat.zero_le _
  | @next first second last access history step rest ih =>
    obtain ⟨-, range'⟩ := step.mono range
    cases grows : access.commits size with
    | false =>
      rw [List.countP_cons_of_neg (Bool.eq_false_iff.mp grows)]
      exact ih range'
    | true =>
      obtain ⟨-, moved⟩ := step.commits grows
      have passed : size < second.current := moved ▸ lt_nextCapacity small
      rw [List.countP_cons_of_pos grows, rest.countP_commits_passed range' passed]

end Run

/-- What callers may rely on between the first and the last of a history of accesses. -/
structure Safe (first : CapacityHint) (history : List Access) (last : CapacityHint) : Prop where
  /-- At any moment the hint has grown once for each commit before it, and it never shrinks. -/
  grown : ∀ before between after, history = before ++ between ++ after →
    ∃ earlier later, Run first before earlier ∧ Run earlier between later ∧ Run later after last ∧
      later.current = growth first.current ((before ++ between).countP Access.committed) ∧
      earlier.current ≤ later.current
  /-- A proposal is committed if the hint is what the proposal observed, and else does nothing. -/
  compared : ∀ before caller observed committed after,
    history = before ++ .proposal caller observed committed :: after →
    ∃ hint next, Run first before hint ∧ Run next after last ∧
      (committed = true ↔ hint.current = observed) ∧
      next.current = if committed then nextCapacity observed else hint.current
  /-- The hint does not come back to a size, so nobody commits on one that was there before. -/
  once : ∀ size < Size.largest, history.countP (Access.commits size) ≤ 1
  /-- A proposal has what it asked for, committed or not, if the hint ever was what it observed. -/
  satisfied : ∀ before reader caller observed committed after,
    history = before ++ .proposal caller observed committed :: after →
    .read reader observed ∈ before → observed < Size.largest →
    ∀ other value, .read other value ∈ after → observed < value

/-- However callers take turns, the hint only grows, one step for each size that it leaves. -/
theorem Run.safe (run : Run first history last) (range : first.current ≤ Size.largest) :
    Safe first history last where
  grown := by
    intro before between after split
    subst split
    obtain ⟨later, whole, rest⟩ := append_iff.mp run
    obtain ⟨earlier, start, span⟩ := append_iff.mp whole
    exact ⟨earlier, later, start, span, rest, whole.current, (span.mono (start.mono range).2).1⟩
  compared := by
    intro before caller observed committed after split
    subst split
    obtain ⟨hint, start, rest⟩ := append_iff.mp run
    cases rest with
    | next step rest => exact ⟨hint, _, start, rest, step.proposal_iff⟩
  once := fun _ => run.countP_commits_le_one range
  satisfied := by
    intro before reader caller observed committed after split seen small other value later
    subst split
    obtain ⟨hint, start, rest⟩ := append_iff.mp run
    cases rest with
    | next step rest =>
      have passed := step.passed (start.read_le range seen) small
      have range := (step.mono (start.mono range).2).2
      exact Nat.lt_of_lt_of_le passed (rest.le_read range later)

/-- Two callers find the same size too small, and a third proposes what nobody has read. -/
def contended : List Access :=
  [.read 0 100, .read 1 100, .proposal 2 7 false, .proposal 0 100 true, .proposal 1 100 false,
    .read 1 110, .proposal 1 110 true, .read 0 121]

theorem run_contended : Run ⟨100⟩ contended ⟨121⟩ :=
  .next (.read 0) <| .next (.read 1) <| .next (.propose 2 7) <| .next (.propose 0 100) <|
    .next (.propose 1 100) <| .next (.read 1) <| .next (.propose 1 110) <| .next (.read 0) <|
    .done _

/-- One of them grows it for both. -/
theorem safe_contended : Run ⟨100⟩ contended ⟨121⟩ ∧ (100 : Nat) ≤ Size.largest ∧
    Safe ⟨100⟩ contended ⟨121⟩ :=
  ⟨run_contended, by decide, run_contended.safe (by decide)⟩

end Clickstream.CapacityHint

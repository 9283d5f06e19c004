import Clickstream.Audience
import Clickstream.Proofs.Sources
import Clickstream.Proofs.Stepwise

namespace Clickstream

/-- What a use that begins at a position of the bytes gives, and where it ends. -/
inductive Serves (bytes : List UInt8) (position : Nat) : Use → Answer → Nat → Prop where
  | skipped {count : Nat} (inside : position + count ≤ bytes.length) :
    Serves bytes position (.skip count) .skipped (position + count)
  | bytes {count : Nat} (inside : position + count ≤ bytes.length) :
    Serves bytes position (.take count) (.bytes ((bytes.drop position).take count))
      (position + count)
  | byte {first : UInt8} (here : bytes[position]? = some first) :
    Serves bytes position .next (.byte first) (position + 1)
  | value {schema : Schema} {value : Value} {taken rest : List UInt8}
    (read : Wire.read schema (bytes.drop position) = .ok value rest)
    (split : bytes.drop position = taken ++ rest) :
    Serves bytes position (.read schema) (.value (.ok value)) (position + taken.length)
  | refused {schema : Schema} {fault : Located Corruption} {taken rest : List UInt8}
    (read : Wire.read schema (bytes.drop position) = .error fault rest)
    (split : bytes.drop position = taken ++ rest) :
    Serves bytes position (.read schema) (.value (.error fault)) (position + taken.length)
  | pastEnd {use : Use} (beyond : bytes.length < position + use.wanted) :
    Serves bytes position use .pastEnd position

namespace Serves

variable {bytes : List UInt8} {position next : Nat} {use : Use} {answer : Answer}

theorem le (h : Serves bytes position use answer next) : position ≤ next := by
  cases h with
  | skipped | bytes | byte | value | refused => exact Nat.le_add_right _ _
  | pastEnd => exact Nat.le_refl _

theorem le_length (h : Serves bytes position use answer next) (inside : position ≤ bytes.length) :
    next ≤ bytes.length := by
  cases h with
  | skipped enough | bytes enough => exact enough
  | byte here => exact (List.getElem?_eq_some_iff.mp here).1
  | value _ split | refused _ split =>
    have total := congrArg List.length split
    rw [List.length_drop, List.length_append] at total
    omega
  | pastEnd => exact inside

/-- What a use takes lies between the position where it begins and the one where it ends. -/
theorem taken_eq (h : Serves bytes position use answer next) (inside : position ≤ bytes.length)
    (length : Nat) :
    answer.taken ⟨bytes.drop position, length⟩ ⟨bytes.drop next, length⟩ =
      (bytes.drop position).take (next - position) := by
  have upper := h.le_length inside
  have lower := h.le
  have gone : (bytes.drop position).length - (bytes.drop next).length = next - position := by
    simp only [List.length_drop]
    omega
  cases h with
  | skipped | value | refused => simp only [Answer.taken, View.remaining, gone]
  | bytes => simp only [Answer.taken, Nat.add_sub_cancel_left]
  | byte here =>
    obtain ⟨below, rfl⟩ := List.getElem?_eq_some_iff.mp here
    rw [List.drop_eq_getElem_cons below, Nat.add_sub_cancel_left]
    rfl
  | pastEnd => simp only [Answer.taken, Nat.sub_self, List.take_zero]

end Serves

namespace Use
open Source Wire

variable {σ κ : Type} [Source σ] {unread : σ → List UInt8} {kept : σ → κ}

/-- What is read of a lawful source is what is read of its bytes. -/
theorem read_lawful (h : Lawful unread kept) (schema : Schema) (source : σ) :
    Machine.Alike (Left unread kept source)
      ((Datum.read schema : Machine (Located Corruption) σ Value) source)
      (Machine.plain (Wire.read schema) (unread source)) := by
  rw [← Stepwise.read_eq]
  exact h.concord.read schema source

/-- A lawful source serves as the bytes do that are left in it. -/
theorem ask_lawful (h : Lawful unread kept) (use : Use) (source : σ) :
    (use.ask source).1 = (use.ask (unread source)).1 ∧
      Left unread kept source (use.ask source).2 (use.ask (unread source)).2 := by
  cases use with
  | skip count =>
    have same := h.advance_left source count
    simp only [ask]
    generalize advance? source count = found, advance? (unread source) count = told at same ⊢
    cases same with
    | none => exact ⟨rfl, .refl source⟩
    | some left => exact ⟨rfl, left⟩
  | take count =>
    have same := h.copy_left source count
    simp only [ask]
    generalize copy? source count = found, copy? (unread source) count = told at same ⊢
    cases same with
    | none => exact ⟨rfl, .refl source⟩
    | some pair => exact ⟨congrArg Answer.bytes pair.1, pair.2⟩
  | next =>
    have same := h.next_left source
    simp only [ask]
    generalize next? source = found, next? (unread source) = told at same ⊢
    cases same with
    | none => exact ⟨rfl, .refl source⟩
    | some pair => exact ⟨congrArg Answer.byte pair.1, pair.2⟩
  | read schema =>
    have same := h.concord.read schema source
    simp only [ask]
    generalize (Datum.read schema : Machine (Located Corruption) σ Value) source = found,
      (Datum.read schema : Machine (Located Corruption) (List UInt8) Value) (unread source) = told
      at same ⊢
    cases same with
    | ok left => exact ⟨rfl, left⟩
    | @error failure _ _ left => cases failure <;> exact ⟨rfl, left⟩

/-- What a view does at once comes to the same as asking it for how much is left, for what is in
front, and to move. -/
theorem ask_view (use : Use) (view : View) : use.ask view = view.use use := by
  cases use with
  | skip count =>
    simp only [ask, View.use, advance?]
    cases view.advance? count <;> rfl
  | take count =>
    simp only [ask, View.use, copy?_view]
    cases view.take? count <;> rfl
  | next =>
    simp only [ask, View.use, next?_view]
    cases view.next? <;> rfl
  | read schema =>
    have alike := read_lawful lawful_view schema view
    simp only [ask, View.use, View.read, Machine.plain] at alike ⊢
    generalize (Datum.read schema : Machine (Located Corruption) View Value) view = outcome at alike ⊢
    cases found : Wire.read schema view.unread with
    | ok value rest =>
      rw [found] at alike
      cases alike with
      | ok left => simp only [left.view_eq]
    | error fault rest =>
      rw [found] at alike
      cases alike with
      | error left => simp only [left.view_eq]

/-- The bytes left in a view, on their own, give the same and are left as those in the view are. -/
theorem ask_unread (use : Use) (view : View) :
    use.ask view.unread = ((view.use use).1, (view.use use).2.unread) := by
  obtain ⟨same, left⟩ := use.ask_lawful lawful_view view
  rw [← use.ask_view, same, left.unread_eq]

theorem use_of_ask {use : Use} {view : View} {answer : Answer} {rest : List UInt8}
    (told : use.ask view.unread = (answer, rest)) :
    view.use use = (answer, ⟨rest, view.length⟩) := by
  obtain ⟨same, left⟩ := use.ask_lawful lawful_view view
  rw [told] at same left
  rw [← use.ask_view]
  exact Prod.ext same left.view_eq

/-- A byte string serves each use as it should be served. -/
theorem ask_bytes {bytes : List UInt8} {position : Nat} (inside : position ≤ bytes.length)
    (use : Use) : ∃ answer next, use.ask (bytes.drop position) = (answer, bytes.drop next) ∧
      Serves bytes position use answer next := by
  have length : (bytes.drop position).length = bytes.length - position := List.length_drop
  cases use with
  | skip count =>
    by_cases enough : position + count ≤ bytes.length
    · obtain ⟨_, moved, rfl, -⟩ := lawful_bytes.advance_inside (bytes.drop position) count
        (by simp only [lawful_bytes.remaining_eq]; omega)
      exact ⟨.skipped, position + count, by simp only [ask, moved, List.drop_drop],
        .skipped enough⟩
    · have stuck := lawful_bytes.advance_beyond (bytes.drop position) count
        (by simp only [lawful_bytes.remaining_eq]; omega)
      exact ⟨.pastEnd, position, by simp only [ask, stuck], .pastEnd (Nat.lt_of_not_le enough)⟩
  | take count =>
    by_cases enough : position + count ≤ bytes.length
    · have inside : count ≤ (bytes.drop position).length := by omega
      obtain ⟨_, given, rfl, -⟩ := lawful_bytes.copy_some (bytes.drop position) inside
      exact ⟨_, position + count, by simp only [ask, given, List.drop_drop], .bytes enough⟩
    · have beyond : (bytes.drop position).length < count := by omega
      have stuck := lawful_bytes.copy_none (bytes.drop position) beyond
      exact ⟨.pastEnd, position, by simp only [ask, stuck], .pastEnd (Nat.lt_of_not_le enough)⟩
  | next =>
    by_cases below : position < bytes.length
    · have left := List.drop_eq_getElem_cons below
      obtain ⟨_, given, rfl, -⟩ := lawful_bytes.next_some _ left
      exact ⟨_, position + 1, by simp only [ask, given], .byte (List.getElem?_eq_getElem below)⟩
    · have ends : bytes.drop position = [] := List.drop_eq_nil_of_le (Nat.le_of_not_lt below)
      have stuck := lawful_bytes.next_none _ ends
      exact ⟨.pastEnd, position, by simp only [ask, stuck],
        .pastEnd (Nat.lt_succ_of_le (Nat.le_of_not_lt below))⟩
  | read schema =>
    have alike := read_lawful lawful_bytes schema (bytes.drop position)
    simp only [ask, Machine.plain] at alike ⊢
    generalize (Datum.read schema : Machine (Located Corruption) (List UInt8) Value)
      (bytes.drop position) = outcome at alike ⊢
    cases found : Wire.read schema (bytes.drop position) with
    | ok value rest =>
      rw [found] at alike
      cases alike with
      | ok ends =>
        obtain ⟨rfl, -, taken, split⟩ := ends
        refine ⟨_, position + taken.length, ?_, .value found split.symm⟩
        rw [← List.drop_drop, ← split, List.drop_left]
    | error fault rest =>
      rw [found] at alike
      cases alike with
      | error ends =>
        obtain ⟨rfl, -, taken, split⟩ := ends
        refine ⟨_, position + taken.length, ?_, .refused found split.symm⟩
        rw [← List.drop_drop, ← split, List.drop_left]

end Use

namespace Consumer

/-- A view as long as the buffer, at a position inside it, in front of the bytes from there on, and
behind it those up to there. -/
structure Abreast (buffer : Buffer) (consumer : Consumer) : Prop where
  length_eq : consumer.view.length = buffer.size
  position_le : consumer.view.position ≤ consumer.view.length
  position_add_remaining :
    consumer.view.position + consumer.view.remaining = consumer.view.length
  unread_eq : consumer.view.unread = buffer.bytes.drop consumer.view.position
  passed_eq : consumer.passed = buffer.bytes.take consumer.view.position

theorem use_view (consumer : Consumer) (use : Use) :
    consumer.view.use use = ((consumer.use use).1, (consumer.use use).2.view) := rfl

theorem follow_append (consumer : Consumer) (uses more : List Use) :
    consumer.follow (uses ++ more) = (consumer.follow uses).follow more := List.foldl_append

end Consumer

namespace Buffer

variable {buffer : Buffer} {position : Nat}

theorem position_consumerAt (inside : position ≤ buffer.size) :
    (buffer.consumerAt position).view.position = position := by
  simp only [size, consumerAt, View.position, List.length_drop] at inside ⊢
  omega

theorem abreast_consumerAt (inside : position ≤ buffer.size) :
    (buffer.consumerAt position).Abreast buffer := by
  have here := position_consumerAt inside
  refine ⟨rfl, ?_, ?_, ?_, ?_⟩
  · rw [here]
    exact inside
  · rw [here]
    simp only [size, consumerAt, View.remaining, List.length_drop] at inside ⊢
    omega
  · rw [here]
    rfl
  · rw [here]
    rfl

/-- A consumer is served as its position asks, and goes on to another one. -/
theorem use_consumerAt (inside : position ≤ buffer.size) (use : Use) : ∃ answer next,
    (buffer.consumerAt position).use use = (answer, buffer.consumerAt next) ∧
      Serves buffer.bytes position use answer next := by
  obtain ⟨answer, next, told, serves⟩ := use.ask_bytes inside
  have used : (buffer.consumerAt position).view.use use =
      (answer, (buffer.consumerAt next).view) := Use.use_of_ask told
  have taken := serves.taken_eq inside buffer.size
  refine ⟨answer, next, ?_, serves⟩
  simp only [Consumer.use, used]
  unfold Buffer.consumerAt
  rw [taken, ← List.take_add, Nat.add_sub_cancel' serves.le]

end Buffer

/-- What comes of a use by the consumer at a place. -/
structure Audience.Served (audience : Audience) (place : Nat) (consumer : Consumer) (use : Use)
    (answer : Answer) (after : Consumer) : Prop where
  step_eq : audience.step (.use place use) =
    (some answer, { audience with consumers := audience.consumers.set place after })
  serves : Serves audience.buffer.bytes consumer.view.position use answer after.view.position
  asked : use.ask consumer.view = (answer, after.view)
  told : use.ask consumer.view.unread = (answer, after.view.unread)
  stays : answer = .pastEnd → (audience.step (.use place use)).2 = audience

/-- Everyone in the audience reads the buffer from the front, at a pace of its own. -/
structure Audience.Faithful (buffer : Buffer) (audience : Audience) : Prop where
  buffer_eq : audience.buffer = buffer
  abreast : ∀ consumer ∈ audience.consumers, consumer.Abreast buffer
  served : ∀ (place : Nat) (consumer : Consumer), audience.consumers[place]? = some consumer →
    ∀ use : Use, ∃ answer after, audience.Served place consumer use answer after
  alone : ∀ (place : Nat) (consumer : Consumer), audience.consumers[place]? = some consumer →
    ∀ later : List Act, (audience.run later).consumers[place]? =
      some (consumer.follow (later.filterMap (Act.use? place)))
  joined : ∀ later : List Act,
    ((audience.step .join).2.run later).consumers[audience.consumers.length]? =
      some ((buffer.consumerAt 0).follow
        (later.filterMap (Act.use? audience.consumers.length)))
  cloned : ∀ (place : Nat) (consumer : Consumer), audience.consumers[place]? = some consumer →
    ∀ later : List Act,
      ((audience.step (.clone place)).2.run later).consumers[place]? =
        some (consumer.follow (later.filterMap (Act.use? place))) ∧
      ((audience.step (.clone place)).2.run later).consumers[audience.consumers.length]? =
        some (consumer.follow (later.filterMap (Act.use? audience.consumers.length)))

namespace Audience

variable {buffer : Buffer} {audience : Audience} {place : Nat} {consumer : Consumer}

theorem run_cons (act : Act) (acts : List Act) :
    audience.run (act :: acts) = (audience.step act).2.run acts := rfl

theorem step_clone_of_consumer (found : audience.consumers[place]? = some consumer) :
    audience.step (.clone place) = (none, audience.welcome consumer) := by
  simp only [step, found]

theorem step_use_of_consumer (found : audience.consumers[place]? = some consumer) (use : Use) :
    audience.step (.use place use) = (some (consumer.use use).1,
      { audience with consumers := audience.consumers.set place (consumer.use use).2 }) := by
  simp only [step, found]

theorem welcome_consumer (found : audience.consumers[place]? = some consumer)
    (newcomer : Consumer) : (audience.welcome newcomer).consumers[place]? = some consumer :=
  (List.getElem?_append_left (List.getElem?_eq_some_iff.mp found).1).trans found

theorem welcome_newcomer (audience : Audience) (newcomer : Consumer) :
    (audience.welcome newcomer).consumers[audience.consumers.length]? = some newcomer := by
  simp [welcome]

/-- An act changes the consumer at a place as far as it is a use by that consumer. -/
theorem step_consumer (found : audience.consumers[place]? = some consumer) (act : Act) :
    (audience.step act).2.consumers[place]? =
      some (consumer.follow ([act].filterMap (Act.use? place))) := by
  cases act with
  | join => exact welcome_consumer found _
  | clone other =>
    cases model : audience.consumers[other]? with
    | none =>
      simp only [step, model]
      exact found
    | some newcomer =>
      rw [step_clone_of_consumer model]
      exact welcome_consumer found newcomer
  | use other what =>
    by_cases same : other = place
    · subst same
      have below := (List.getElem?_eq_some_iff.mp found).1
      have own : [Act.use other what].filterMap (Act.use? other) = [what] := by simp [Act.use?]
      rw [step_use_of_consumer found, own]
      exact List.getElem?_set_self below
    · have foreign : [Act.use other what].filterMap (Act.use? place) = [] := by
        simp [Act.use?, same]
      rw [foreign]
      cases user : audience.consumers[other]? with
      | none =>
        simp only [step, user]
        exact found
      | some newcomer =>
        rw [step_use_of_consumer user]
        exact (List.getElem?_set_ne same).trans found

/-- What others do passes a consumer by. -/
theorem run_consumer (found : audience.consumers[place]? = some consumer) (acts : List Act) :
    (audience.run acts).consumers[place]? =
      some (consumer.follow (acts.filterMap (Act.use? place))) := by
  induction acts generalizing audience consumer with
  | nil => exact found
  | cons act acts ih =>
    rw [run_cons, ih (step_consumer found act), ← Consumer.follow_append, ← List.filterMap_append]
    rfl

/-- The buffer as it was, with consumers at positions of it. -/
structure Placed (buffer : Buffer) (audience : Audience) : Prop where
  buffer_eq : audience.buffer = buffer
  placed : ∀ consumer ∈ audience.consumers, ∃ position ≤ buffer.size,
    consumer = buffer.consumerAt position

theorem Placed.welcome (h : audience.Placed buffer)
    (there : ∃ position ≤ buffer.size, consumer = buffer.consumerAt position) :
    (audience.welcome consumer).Placed buffer := by
  refine ⟨h.buffer_eq, fun other member => ?_⟩
  rcases List.mem_append.mp member with old | new
  · exact h.placed other old
  · rw [List.mem_singleton.mp new]
    exact there

theorem Placed.step (h : audience.Placed buffer) (act : Act) :
    (audience.step act).2.Placed buffer := by
  cases act with
  | join =>
    refine h.welcome ⟨0, Nat.zero_le _, ?_⟩
    rw [h.buffer_eq]
    rfl
  | clone place =>
    cases model : audience.consumers[place]? with
    | none => simpa only [Audience.step, model] using h
    | some consumer =>
      rw [step_clone_of_consumer model]
      exact h.welcome (h.placed consumer (List.mem_of_getElem? model))
  | use place use =>
    cases user : audience.consumers[place]? with
    | none => simpa only [Audience.step, user] using h
    | some consumer =>
      rw [step_use_of_consumer user]
      refine ⟨h.buffer_eq, fun other member => ?_⟩
      rcases List.mem_or_eq_of_mem_set member with old | rfl
      · exact h.placed other old
      · obtain ⟨position, inside, rfl⟩ := h.placed consumer (List.mem_of_getElem? user)
        obtain ⟨answer, next, used, serves⟩ := Buffer.use_consumerAt inside use
        exact ⟨next, serves.le_length inside, by rw [used]⟩

theorem Placed.run (h : audience.Placed buffer) (acts : List Act) :
    (audience.run acts).Placed buffer := by
  induction acts generalizing audience with
  | nil => exact h
  | cons act acts ih => exact ih (h.step act)

theorem Placed.served (h : audience.Placed buffer)
    (found : audience.consumers[place]? = some consumer) (use : Use) :
    ∃ answer after, audience.Served place consumer use answer after := by
  obtain ⟨position, inside, rfl⟩ := h.placed consumer (List.mem_of_getElem? found)
  obtain ⟨answer, next, used, serves⟩ := Buffer.use_consumerAt inside use
  have step_eq := step_use_of_consumer found use
  have view_use := (buffer.consumerAt position).use_view use
  rw [used] at step_eq view_use
  have ends := serves.le_length inside
  refine ⟨answer, buffer.consumerAt next, step_eq, ?_, ?_, ?_, ?_⟩
  · rw [h.buffer_eq, Buffer.position_consumerAt inside, Buffer.position_consumerAt ends]
    exact serves
  · rw [use.ask_view, view_use]
  · rw [use.ask_unread, view_use]
  · intro stuck
    subst stuck
    cases serves with
    | pastEnd =>
      obtain ⟨below, same⟩ := List.getElem?_eq_some_iff.mp found
      rw [step_eq, ← same, List.set_getElem_self]

theorem Placed.faithful (h : audience.Placed buffer) : audience.Faithful buffer where
  buffer_eq := h.buffer_eq
  abreast consumer member := by
    obtain ⟨position, inside, rfl⟩ := h.placed consumer member
    exact Buffer.abreast_consumerAt inside
  served place consumer found use := h.served found use
  alone place consumer found later := run_consumer found later
  joined later := by
    refine run_consumer ?_ later
    rw [← h.buffer_eq]
    exact welcome_newcomer audience _
  cloned place consumer found later := by
    rw [step_clone_of_consumer found]
    exact ⟨run_consumer (welcome_consumer found consumer) later,
      run_consumer (welcome_newcomer audience consumer) later⟩

/-- Whatever an audience does, everyone in it goes through the buffer from the front, byte by byte
and alone. -/
theorem run_faithful (buffer : Buffer) (acts : List Act) :
    ((start buffer).run acts).Faithful buffer := by
  have placed : (start buffer).Placed buffer := ⟨rfl, by simp [start]⟩
  exact (placed.run acts).faithful

/-- A text is cut off behind its length, and a view goes no further than the end. -/
example : ((start ⟨⟨"stream"⟩, [0x06, 0x61]⟩).run [.join, .clone 0, .use 0 (.read .string),
    .use 1 (.take 3), .use 1 (.take 2), .use 1 .next]).consumers.map (·.view.position) =
      [1, 2] := by decide

end Audience

end Clickstream

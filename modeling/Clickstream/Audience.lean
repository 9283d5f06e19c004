import Clickstream.Wire.Stepwise

namespace Clickstream

/-- What a consumer does with its view. -/
inductive Use where
  | skip (count : Nat)
  | take (count : Nat)
  | next
  | read (schema : Schema)

/-- What comes of a use. There is none past the end. -/
inductive Answer where
  | skipped
  | bytes (data : List UInt8)
  | byte (byte : UInt8)
  | value (result : Except (Located Corruption) Value)
  | pastEnd

namespace Use

variable {σ : Type}

/-- The bytes that have to be there. A reader asks before it takes any. -/
def wanted : Use → Nat
  | .skip count | .take count => count
  | .next => 1
  | .read _ => 0

/-- What comes of a use of a source of which no more is known than how it answers. -/
def ask [Source σ] (use : Use) (source : σ) : Answer × σ :=
  match use with
  | .skip count =>
    match Source.advance? source count with
    | some rest => (.skipped, rest)
    | none => (.pastEnd, source)
  | .take count =>
    match Source.copy? source count with
    | some (data, rest) => (.bytes data, rest)
    | none => (.pastEnd, source)
  | .next =>
    match Source.next? source with
    | some (byte, rest) => (.byte byte, rest)
    | none => (.pastEnd, source)
  | .read schema =>
    match (Datum.read schema : Machine (Located Corruption) σ Value) source with
    | .ok value rest => (.value (.ok value), rest)
    | .error (.fault fault) rest => (.value (.error fault), rest)
    | .error (.trap _) rest => (.pastEnd, rest)

end Use

/-- What comes of a use of a view, and the view after it. -/
def View.use (view : View) : Use → Answer × View
  | .skip count =>
    match view.advance? count with
    | some rest => (.skipped, rest)
    | none => (.pastEnd, view)
  | .take count =>
    match view.take? count with
    | some (data, rest) => (.bytes data, rest)
    | none => (.pastEnd, view)
  | .next =>
    match view.next? with
    | some (byte, rest) => (.byte byte, rest)
    | none => (.pastEnd, view)
  | .read schema =>
    let (result, rest) := view.read schema
    (.value result, rest)

/-- The bytes that a use takes away from the front of a view: those that it gives, or else those
that are gone. -/
def Answer.taken (before after : View) : Answer → List UInt8
  | .bytes data => data
  | .byte first => [first]
  | .skipped | .value _ => before.unread.take (before.remaining - after.remaining)
  | .pastEnd => []

/-- A view, and the bytes that were taken from it so far. -/
structure Consumer where
  view : View
  passed : List UInt8

namespace Consumer

def use (consumer : Consumer) (use : Use) : Answer × Consumer :=
  let (answer, after) := consumer.view.use use
  (answer, ⟨after, consumer.passed ++ answer.taken consumer.view after⟩)

def follow (consumer : Consumer) (uses : List Use) : Consumer :=
  uses.foldl (fun consumer use => (consumer.use use).2) consumer

end Consumer

/-- A consumer that has come to a position of the buffer. -/
def Buffer.consumerAt (buffer : Buffer) (position : Nat) : Consumer :=
  ⟨⟨buffer.bytes.drop position, buffer.size⟩, buffer.bytes.take position⟩

/-- A buffer and everyone who reads it. -/
structure Audience where
  buffer : Buffer
  consumers : List Consumer

/-- Somebody joins with a new view, or with the view that another one has, or uses its own. -/
inductive Act where
  | join
  | clone (place : Nat)
  | use (place : Nat) (use : Use)

/-- The use that an act is to the consumer at a place. -/
def Act.use? (place : Nat) : Act → Option Use
  | .use other what => if other = place then some what else none
  | .join | .clone _ => none

namespace Audience

def start (buffer : Buffer) : Audience := ⟨buffer, []⟩

def welcome (audience : Audience) (consumer : Consumer) : Audience :=
  { audience with consumers := audience.consumers ++ [consumer] }

/-- What comes of an act, if it is a use, and the audience after it. -/
def step (audience : Audience) : Act → Option Answer × Audience
  | .join => (none, audience.welcome ⟨audience.buffer.view, []⟩)
  | .clone place =>
    match audience.consumers[place]? with
    | some consumer => (none, audience.welcome consumer)
    | none => (none, audience)
  | .use place use =>
    match audience.consumers[place]? with
    | some consumer =>
      let (answer, after) := consumer.use use
      (some answer, { audience with consumers := audience.consumers.set place after })
    | none => (none, audience)

def run (audience : Audience) (acts : List Act) : Audience :=
  acts.foldl (fun audience act => (audience.step act).2) audience

end Audience

end Clickstream

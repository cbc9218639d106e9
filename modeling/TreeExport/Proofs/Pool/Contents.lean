import TreeExport.Proofs.Dump.Packing
import TreeExport.Proofs.Pool.Trades

/-!
# What is in the buffers of a pool

Empty buffers are blank and full ones are packed with entries; no operation spoils one
(`Call.Advances.isSound`).  What an operation carries goes from hand to queue and from queue to hand
whole and in order (`Call.Advances.gives`, `Call.Advances.gets`), unless it is stopped.
-/

namespace TreeExport

/-- There is nothing in the buffer. -/
def Buffer.IsBlank (capacity maxEntries : Nat) (buffer : Buffer) : Prop :=
  buffer.batch = .empty capacity maxEntries

/-- The buffer has been packed with some entries. -/
def Buffer.IsFilled (capacity maxEntries : Nat) (buffer : Buffer) : Prop :=
  ∃ entries, EntryBatch.Packs capacity maxEntries buffer.batch entries ∧ entries ≠ []

/-- The entries of a buffer, if there is one. -/
def FullItem.contents : FullItem → List (List StoredEntry)
  | .buffer full => [full.batch.contents]
  | .endOfInput => []

namespace Pool

/-- The entries of the full buffers in their queue, in order. -/
def filled (pool : Pool) : List (List StoredEntry) :=
  pool.fulls.items.flatMap FullItem.contents

/-- The buffers in the queue of empty ones are blank, and the full ones are filled. -/
structure IsSound (capacity maxEntries : Nat) (pool : Pool) : Prop where
  blank : ∀ buffer ∈ pool.empties.items, buffer.IsBlank capacity maxEntries
  filled : ∀ buffer, .buffer buffer ∈ pool.fulls.items → buffer.IsFilled capacity maxEntries

/-- The entries of the full buffer that an operation carries, if it carries one. -/
def Call.carried : Call → List (List StoredEntry)
  | .submit buffer => [buffer.batch.contents]
  | .countFull buffer => [buffer.batch.contents]
  | .offerFull buffer _ => [buffer.batch.contents]
  | .tookFull buffer => [buffer.batch.contents]
  | _ => []

/-- The entries of the full buffer in an answer, if there is one. -/
def Answer.carried : Answer → List (List StoredEntry)
  | .item received => received.contents
  | _ => []

/-- The entries of the full buffer that is carried on or answered. -/
def Progress.carried : Progress → List (List StoredEntry)
  | .going call => call.carried
  | .answered (.ok answer) => answer.carried
  | .answered (.error _) => []

/-- What an operation carries is as it should be, and it gives up only if it is stopped. -/
def Call.IsSound (capacity maxEntries : Nat) (cancelled : Bool) : Call → Prop
  | .tookEmpty buffer => buffer.IsBlank capacity maxEntries
  | .submit buffer => buffer.IsFilled capacity maxEntries
  | .countFull buffer => buffer.IsFilled capacity maxEntries
  | .offerFull buffer _ => buffer.IsFilled capacity maxEntries
  | .recountHeld cause => cause.IsStop cancelled
  | .tookFull buffer => buffer.IsFilled capacity maxEntries
  | .giveBack buffer => buffer.batch.clear = .empty capacity maxEntries
  | .offerEmpty buffer _ => buffer.IsBlank capacity maxEntries
  | .reclaimHeld cause => cause.IsStop cancelled
  | _ => True

/-- A buffer in an answer is as it should be. -/
def Answer.IsSound (capacity maxEntries : Nat) : Answer → Prop
  | .buffer empty => empty.IsBlank capacity maxEntries
  | .item (.buffer full) => full.IsFilled capacity maxEntries
  | _ => True

/-- What an operation carries on or answers is as it should be. -/
def Progress.IsSound (capacity maxEntries : Nat) (cancelled : Bool) : Progress → Prop
  | .going call => call.IsSound capacity maxEntries cancelled
  | .answered (.ok answer) => answer.IsSound capacity maxEntries
  | .answered (.error cause) => cause.IsStop cancelled

theorem isSound_create (size capacity maxEntries : Nat) :
    (create size capacity maxEntries).IsSound capacity maxEntries := by
  refine ⟨fun buffer member => ?_, fun _ none => absurd none List.not_mem_nil⟩
  obtain ⟨number, -, rfl⟩ := List.mem_map.mp member
  exact rfl

theorem Call.IsSound.cancel {capacity maxEntries : Nat} {cancelled : Bool} {call : Call}
    (sound : call.IsSound capacity maxEntries cancelled) :
    call.IsSound capacity maxEntries true := by
  cases call with
  | recountHeld cause => exact Error.IsStop.cancel sound
  | reclaimHeld cause => exact Error.IsStop.cancel sound
  | _ => exact sound

namespace Call

variable {capacity maxEntries : Nat} {pool after : Pool} {cancelled : Bool} {call : Call}
  {progress : Progress}

/-- Whatever is done with a pool, its buffers stay as they should be. -/
theorem Advances.pool_isSound (step : Advances pool cancelled call after progress)
    (pools : pool.IsSound capacity maxEntries) (sound : call.IsSound capacity maxEntries cancelled) :
    after.IsSound capacity maxEntries := by
  cases step with
  | acquireFirst first =>
    refine ⟨fun buffer member => pools.blank buffer ?_, pools.filled⟩
    rw [first]
    exact List.mem_cons_of_mem _ member
  | submitted buffer room =>
    refine ⟨pools.blank, fun other member => ?_⟩
    rcases List.mem_append.mp member with before | last
    · exact pools.filled other before
    · cases List.mem_singleton.mp last
      exact sound
  | fetchFirst first =>
    refine ⟨pools.blank, fun other member => pools.filled other ?_⟩
    rw [first]
    exact List.mem_cons_of_mem _ member
  | fetchEnd first =>
    refine ⟨pools.blank, fun other member => pools.filled other ?_⟩
    rw [first]
    exact List.mem_cons_of_mem _ member
  | givenBack buffer room =>
    refine ⟨fun other member => ?_, pools.filled⟩
    rcases List.mem_append.mp member with before | last
    · exact pools.blank other before
    · cases List.mem_singleton.mp last
      exact sound
  | placeEnd room =>
    refine ⟨pools.blank, fun other member => ?_⟩
    rcases List.mem_append.mp member with before | last
    · exact pools.filled other before
    · cases List.mem_singleton.mp last
  | drainFirst first =>
    refine ⟨fun buffer member => pools.blank buffer ?_, pools.filled⟩
    rw [first]
    exact List.mem_cons_of_mem _ member
  | _ => exact ⟨pools.blank, pools.filled⟩

/-- What an operation carries stays as it should be, and no operation of a stage fails unless it is
stopped. -/
theorem Advances.isSound (step : Advances pool cancelled call after progress)
    (pools : pool.IsSound capacity maxEntries) (sound : call.IsSound capacity maxEntries cancelled)
    (kind : call.kind ≠ .signal) (goesOn : call.kind = .submit → pool.ended = false) :
    progress.IsSound capacity maxEntries cancelled := by
  cases step with
  | acquireStopped set => exact ⟨set, rfl⟩
  | acquireReady clear => trivial
  | acquireFirst first =>
    refine pools.blank _ ?_
    rw [first]
    exact List.mem_cons_self
  | acquired buffer => exact sound
  | submitLate buffer ended =>
    have still := goesOn rfl
    rw [ended] at still
    cases still
  | submit => exact sound
  | countFull => exact sound
  | submitStopped buffer set => exact ⟨set, rfl⟩
  | submitReady => exact sound
  | submitted => trivial
  | recountHeld cause => exact sound
  | fetchStopped set => exact ⟨set, rfl⟩
  | fetchReady clear => trivial
  | fetchFirst first =>
    refine pools.filled _ ?_
    rw [first]
    exact List.mem_cons_self
  | fetchEnd first => trivial
  | fetched buffer => exact sound
  | giveBack buffer => exact sound
  | giveBackStopped buffer set => exact ⟨set, rfl⟩
  | giveBackReady => exact sound
  | givenBack => trivial
  | reclaimHeld cause => exact sound
  | signalTwice => exact absurd rfl kind
  | signalEnd => exact absurd rfl kind
  | placeEnd => exact absurd rfl kind
  | noRoomForEnd => exact absurd rfl kind
  | drainFirst first => trivial
  | drainDone => trivial
  | drained => trivial

/-- Somebody who fills buffers puts what he carries behind the others, or still carries it, unless
he is stopped. -/
theorem Advances.gives (step : Advances pool cancelled call after progress)
    (kind : call.kind = .acquire ∨ call.kind = .submit ∨ call.kind = .giveBack) :
    ∃ given, after.filled = pool.filled ++ given ∧
      (cancelled = false → pool.ended = false → given ++ progress.carried = call.carried) := by
  cases step with
  | submitLate buffer ended =>
    refine ⟨[], (List.append_nil _).symm, fun _ still => ?_⟩
    rw [ended] at still
    cases still
  | submitStopped buffer set =>
    refine ⟨[], (List.append_nil _).symm, fun clear => ?_⟩
    rw [set] at clear
    cases clear
  | submitted buffer room =>
    refine ⟨[buffer.batch.contents], ?_, fun _ _ => rfl⟩
    simp only [Pool.filled, List.flatMap_append, List.flatMap_singleton, FullItem.contents]
  | acquireStopped | acquireReady | acquireFirst | acquired | submit | countFull | submitReady
  | recountHeld | giveBack | giveBackStopped | giveBackReady | givenBack | reclaimHeld =>
    exact ⟨[], (List.append_nil _).symm, fun _ _ => rfl⟩
  | _ => rcases kind with other | other | other <;> cases other

/-- Somebody who empties buffers takes what he carries from the front. -/
theorem Advances.gets (step : Advances pool cancelled call after progress)
    (kind : call.kind = .fetch ∨ call.kind = .giveBack) :
    progress.carried ++ after.filled = call.carried ++ pool.filled := by
  cases step with
  | fetchFirst first =>
    simp only [Progress.carried, carried, Pool.filled, first, List.flatMap_cons, FullItem.contents,
      List.nil_append]
  | fetchEnd first =>
    simp only [Progress.carried, Answer.carried, carried, Pool.filled, first, List.flatMap_cons,
      FullItem.contents, List.nil_append]
  | fetchStopped | fetchReady | fetched | giveBack | giveBackStopped | giveBackReady | givenBack
  | reclaimHeld => rfl
  | _ => rcases kind with other | other <;> cases other

end Call

end Pool

end TreeExport

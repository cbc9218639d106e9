import TreeExport.Pool.Call
import TreeExport.Proofs.Queue

/-!
# What a step of an operation on the pool can do

`advances_of_advance` says once what the next step of an operation does, for a pool whose queues
have somebody at both ends.  The kinds of operations are kept apart: no step turns an operation of
one kind into one of another.
-/

namespace TreeExport

/-- The failure is that its party was asked to stop. -/
def Error.IsStop (cause : Error) (cancelled : Bool) : Prop :=
  cancelled = true ∧ cause = .cancelled

theorem Error.IsStop.cancel {cause : Error} {cancelled : Bool} (stop : cause.IsStop cancelled) :
    cause.IsStop true :=
  ⟨rfl, stop.2⟩

namespace Pool

/-- Both queues have somebody at both ends. -/
structure IsOpen (pool : Pool) : Prop where
  emptiesHeard : pool.empties.receivers ≠ 0
  emptiesFed : pool.empties.senders ≠ 0
  fullsHeard : pool.fulls.receivers ≠ 0
  fullsFed : pool.fulls.senders ≠ 0

@[simp] theorem transfer_empties (pool : Pool) (source target : Slot) :
    (pool.transfer source target).empties = pool.empties := rfl

@[simp] theorem transfer_fulls (pool : Pool) (source target : Slot) :
    (pool.transfer source target).fulls = pool.fulls := rfl

@[simp] theorem transfer_ended (pool : Pool) (source target : Slot) :
    (pool.transfer source target).ended = pool.ended := rfl

namespace Call

/-- The operations on a pool. -/
inductive Kind
  /-- Acquiring an empty buffer. -/
  | acquire
  /-- Submitting a full buffer. -/
  | submit
  /-- Fetching a full buffer. -/
  | fetch
  /-- Returning a buffer. -/
  | giveBack
  /-- Signalling the end of input. -/
  | signal
  /-- Releasing the buffers. -/
  | drain
  deriving DecidableEq

/-- The operation that a call belongs to. -/
def kind : Call → Kind
  | takeEmpty _ => .acquire
  | tookEmpty _ => .acquire
  | submit _ => .submit
  | countFull _ => .submit
  | offerFull _ _ => .submit
  | recountHeld _ => .submit
  | takeFull _ => .fetch
  | tookFull _ => .fetch
  | giveBack _ => .giveBack
  | offerEmpty _ _ => .giveBack
  | reclaimHeld _ => .giveBack
  | signalEnd => .signal
  | placeEnd => .signal
  | drain _ => .drain
  | drained _ => .drain

/-- What a step of an operation can do. -/
inductive Advances (pool : Pool) (cancelled : Bool) : Call → Pool → Progress → Prop
  | acquireStopped {attempt : Attempt} (set : cancelled = true) :
      Advances pool cancelled (.takeEmpty attempt) pool (.answered (.error .cancelled))
  | acquireReady (clear : cancelled = false) :
      Advances pool cancelled (.takeEmpty .check) pool (.going (.takeEmpty .wait))
  | acquireFirst {buffer : Buffer} {rest : List Buffer}
      (first : pool.empties.items = buffer :: rest) :
      Advances pool cancelled (.takeEmpty .wait)
        { pool with empties := { pool.empties with items := rest } } (.going (.tookEmpty buffer))
  | acquired (buffer : Buffer) :
      Advances pool cancelled (.tookEmpty buffer) (pool.transfer .empty .held)
        (.answered (.ok (.buffer buffer)))
  | submitLate (buffer : Buffer) (ended : pool.ended = true) :
      Advances pool cancelled (.submit buffer) pool
        (.answered (.error (Refusal.toError .submittedAfterEnd)))
  | submit (buffer : Buffer) (goingOn : pool.ended = false) :
      Advances pool cancelled (.submit buffer) pool (.going (.countFull buffer))
  | countFull (buffer : Buffer) :
      Advances pool cancelled (.countFull buffer) (pool.transfer .held .full)
        (.going (.offerFull buffer .check))
  | submitStopped {attempt : Attempt} (buffer : Buffer) (set : cancelled = true) :
      Advances pool cancelled (.offerFull buffer attempt) pool (.going (.recountHeld .cancelled))
  | submitReady (buffer : Buffer) (clear : cancelled = false) :
      Advances pool cancelled (.offerFull buffer .check) pool (.going (.offerFull buffer .wait))
  | submitted (buffer : Buffer) (room : pool.fulls.items.length < pool.fulls.capacity) :
      Advances pool cancelled (.offerFull buffer .wait)
        { pool with
          fulls := { pool.fulls with items := pool.fulls.items ++ [.buffer buffer] } }
        (.answered (.ok .done))
  | recountHeld (cause : Error) :
      Advances pool cancelled (.recountHeld cause) (pool.transfer .full .held)
        (.answered (.error cause))
  | fetchStopped {attempt : Attempt} (set : cancelled = true) :
      Advances pool cancelled (.takeFull attempt) pool (.answered (.error .cancelled))
  | fetchReady (clear : cancelled = false) :
      Advances pool cancelled (.takeFull .check) pool (.going (.takeFull .wait))
  | fetchFirst {buffer : Buffer} {rest : List FullItem}
      (first : pool.fulls.items = .buffer buffer :: rest) :
      Advances pool cancelled (.takeFull .wait)
        { pool with fulls := { pool.fulls with items := rest } } (.going (.tookFull buffer))
  | fetchEnd {rest : List FullItem} (first : pool.fulls.items = .endOfInput :: rest) :
      Advances pool cancelled (.takeFull .wait)
        { pool with fulls := { pool.fulls with items := rest } }
        (.answered (.ok (.item .endOfInput)))
  | fetched (buffer : Buffer) :
      Advances pool cancelled (.tookFull buffer) (pool.transfer .full .held)
        (.answered (.ok (.item (.buffer buffer))))
  | giveBack (buffer : Buffer) :
      Advances pool cancelled (.giveBack buffer) (pool.transfer .held .empty)
        (.going (.offerEmpty { buffer with batch := buffer.batch.clear } .check))
  | giveBackStopped {attempt : Attempt} (buffer : Buffer) (set : cancelled = true) :
      Advances pool cancelled (.offerEmpty buffer attempt) pool (.going (.reclaimHeld .cancelled))
  | giveBackReady (buffer : Buffer) (clear : cancelled = false) :
      Advances pool cancelled (.offerEmpty buffer .check) pool (.going (.offerEmpty buffer .wait))
  | givenBack (buffer : Buffer) (room : pool.empties.items.length < pool.empties.capacity) :
      Advances pool cancelled (.offerEmpty buffer .wait)
        { pool with empties := { pool.empties with items := pool.empties.items ++ [buffer] } }
        (.answered (.ok .done))
  | reclaimHeld (cause : Error) :
      Advances pool cancelled (.reclaimHeld cause) (pool.transfer .empty .held)
        (.answered (.error cause))
  | signalTwice (ended : pool.ended = true) :
      Advances pool cancelled .signalEnd pool (.answered (.error (Refusal.toError .endedTwice)))
  | signalEnd (goingOn : pool.ended = false) :
      Advances pool cancelled .signalEnd { pool with ended := true } (.going .placeEnd)
  | placeEnd (room : pool.fulls.items.length < pool.fulls.capacity) :
      Advances pool cancelled .placeEnd
        { pool with fulls := { pool.fulls with items := pool.fulls.items ++ [.endOfInput] } }
        (.answered (.ok .done))
  | noRoomForEnd (full : pool.fulls.capacity ≤ pool.fulls.items.length) :
      Advances pool cancelled .placeEnd pool
        (.answered (.error (Refusal.toError .noRoomForEnd)))
  | drainFirst {released : Nat} {buffer : Buffer} {rest : List Buffer}
      (first : pool.empties.items = buffer :: rest) :
      Advances pool cancelled (.drain released)
        { pool with empties := { pool.empties with items := rest } } (.going (.drained released))
  | drainDone (released : Nat) (none : pool.empties.items = []) :
      Advances pool cancelled (.drain released) pool (.answered (.ok (.released released)))
  | drained (released : Nat) :
      Advances pool cancelled (.drained released) (pool.transfer .empty .released)
        (.going (.drain (released + 1)))

variable {pool after : Pool} {cancelled : Bool} {side : Side} {call next : Call}
  {progress : Progress}

theorem advances_of_advance (isOpen : pool.IsOpen)
    (step : call.advance pool cancelled side = some (after, progress)) :
    Advances pool cancelled call after progress := by
  cases call with
  | takeEmpty attempt =>
    obtain ⟨⟨queue, answer⟩, received, same⟩ := Option.map_eq_some_iff.mp step
    cases same
    cases Queue.receives_of_receive received with
    | stopped set => exact .acquireStopped set
    | ready clear => exact .acquireReady clear
    | taken first => exact .acquireFirst first
    | closed nobody => exact absurd nobody isOpen.emptiesFed
  | tookEmpty buffer =>
    cases step
    exact .acquired buffer
  | submit buffer =>
    cases ended : pool.ended with
    | false =>
      simp only [advance, ended] at step
      cases step
      exact .submit buffer ended
    | true =>
      simp only [advance, ended] at step
      cases step
      exact .submitLate buffer ended
  | countFull buffer =>
    cases step
    exact .countFull buffer
  | offerFull buffer attempt =>
    obtain ⟨⟨queue, answer⟩, sent, same⟩ := Option.map_eq_some_iff.mp step
    cases same
    cases Queue.sends_of_send sent with
    | stopped set => exact .submitStopped buffer set
    | ready clear => exact .submitReady buffer clear
    | sent room => exact .submitted buffer room
    | gone nobody => exact absurd nobody isOpen.fullsHeard
  | recountHeld cause =>
    cases step
    exact .recountHeld cause
  | takeFull attempt =>
    obtain ⟨⟨queue, answer⟩, received, same⟩ := Option.map_eq_some_iff.mp step
    cases same
    cases Queue.receives_of_receive received with
    | stopped set => exact .fetchStopped set
    | ready clear => exact .fetchReady clear
    | @taken item rest first =>
      cases item with
      | buffer buffer => exact .fetchFirst first
      | endOfInput => exact .fetchEnd first
    | closed nobody => exact absurd nobody isOpen.fullsFed
  | tookFull buffer =>
    cases step
    exact .fetched buffer
  | giveBack buffer =>
    cases step
    exact .giveBack buffer
  | offerEmpty buffer attempt =>
    obtain ⟨⟨queue, answer⟩, sent, same⟩ := Option.map_eq_some_iff.mp step
    cases same
    cases Queue.sends_of_send sent with
    | stopped set => exact .giveBackStopped buffer set
    | ready clear => exact .giveBackReady buffer clear
    | sent room => exact .givenBack buffer room
    | gone nobody => exact absurd nobody isOpen.emptiesHeard
  | reclaimHeld cause =>
    cases step
    exact .reclaimHeld cause
  | signalEnd =>
    cases ended : pool.ended with
    | false =>
      simp only [advance, ended, Bool.false_eq_true, if_false] at step
      cases step
      exact .signalEnd ended
    | true =>
      simp only [advance, ended, if_true] at step
      cases step
      exact .signalTwice ended
  | placeEnd =>
    by_cases room : pool.fulls.items.length < pool.fulls.capacity
    · simp only [advance, Queue.offer, isOpen.fullsHeard, room, if_true, if_false] at step
      cases step
      exact .placeEnd room
    · simp only [advance, Queue.offer, isOpen.fullsHeard, room, if_false] at step
      cases step
      exact .noRoomForEnd (Nat.not_lt.mp room)
  | drain released =>
    cases items : pool.empties.items with
    | nil =>
      simp only [advance, Queue.take, items, isOpen.emptiesFed, if_false] at step
      cases step
      exact .drainDone released items
    | cons buffer rest =>
      simp only [advance, Queue.take, items] at step
      cases step
      exact .drainFirst items
  | drained released =>
    cases step
    exact .drained released

/-- The kind of an operation does not change. -/
theorem Advances.kind_eq (step : Advances pool cancelled call after (.going next)) :
    next.kind = call.kind := by
  cases step <;> rfl

/-- A pool stays open. -/
theorem Advances.isOpen (step : Advances pool cancelled call after progress)
    (isOpen : pool.IsOpen) : after.IsOpen := by
  obtain ⟨first, second, third, fourth⟩ := isOpen
  cases step <;> exact ⟨first, second, third, fourth⟩

end Call

end Pool

end TreeExport

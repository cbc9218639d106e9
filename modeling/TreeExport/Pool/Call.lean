import TreeExport.Pool.Basic

/-!
# Operations on the pool, step by step

Several stages use one pool at the same time, so an operation is not one step but several: each
looks at one flag, moves one count, or makes one move on one queue.  A `Call` is where an operation
stands, and `Call.advance` is its next step.  Who hands a buffer on moves the count before the
hand-off and moves it back if that fails; who receives one moves the count afterwards.
-/

namespace TreeExport.Pool

/-- Where an operation on the pool stands. -/
inductive Call
  /-- An empty buffer is being waited for. -/
  | takeEmpty (attempt : Attempt)
  /-- An empty buffer has been received and is still counted as empty. -/
  | tookEmpty (buffer : Buffer)
  /-- A full buffer is to be submitted, unless the input has ended. -/
  | submit (buffer : Buffer)
  /-- The input has not ended; the buffer is still counted as held. -/
  | countFull (buffer : Buffer)
  /-- The buffer is counted as full and is being offered. -/
  | offerFull (buffer : Buffer) (attempt : Attempt)
  /-- The buffer was not handed on; it is still counted as full. -/
  | recountHeld (cause : Error)
  /-- A full buffer is being waited for. -/
  | takeFull (attempt : Attempt)
  /-- A full buffer has been received and is still counted as full. -/
  | tookFull (buffer : Buffer)
  /-- A buffer is to be cleared and returned. -/
  | giveBack (buffer : Buffer)
  /-- The cleared buffer is counted as empty and is being offered. -/
  | offerEmpty (buffer : Buffer) (attempt : Attempt)
  /-- The buffer was not handed on; it is still counted as empty. -/
  | reclaimHeld (cause : Error)
  /-- The end of input is to be signalled. -/
  | signalEnd
  /-- The end of input is set down but not yet in the queue. -/
  | placeEnd
  /-- Empty buffers are to be released, after `released` others. -/
  | drain (released : Nat)
  /-- An empty buffer has been taken out and is still counted as empty. -/
  | drained (released : Nat)
  deriving Repr

/-- What an operation answers. -/
inductive Answer
  | buffer (buffer : Buffer)
  | item (item : FullItem)
  | done
  | released (count : Nat)
  deriving Repr

/-- How an operation goes on. -/
inductive Progress
  | going (call : Call)
  | answered (outcome : Except Error Answer)

/-- The failures that a pool has of its own. -/
inductive Refusal
  | emptiesClosed
  | submittedAfterEnd
  | fullsClosed
  | endedTwice
  | noRoomForEnd
  deriving Repr, DecidableEq

/-- The wording of a failure. -/
def Refusal.message : Refusal → String
  | emptiesClosed => "empty batch queue disconnected"
  | submittedAfterEnd => "full batch submitted after end of input"
  | fullsClosed => "full batch queue disconnected"
  | endedTwice => "end of input already signalled"
  | noRoomForEnd => "full batch queue has no room for end of input"

/-- A failure of the pool. -/
def Refusal.toError (refusal : Refusal) : Error :=
  .validation refusal.message

namespace Call

/-- The next step of an operation of a stage whose token is cancelled or not; none if the side
that is named is not ready. -/
def advance (pool : Pool) (cancelled : Bool) (side : Side) : Call → Option (Pool × Progress)
  | takeEmpty attempt =>
    (pool.empties.receive cancelled side attempt).map fun (queue, progress) =>
      ({ pool with empties := queue },
        match progress with
        | .waiting => .going (takeEmpty .wait)
        | .over (.ok (some buffer)) => .going (tookEmpty buffer)
        | .over (.ok none) => .answered (.error (Refusal.toError .emptiesClosed))
        | .over (.error cause) => .answered (.error cause))
  | tookEmpty buffer => some (pool.transfer .empty .held, .answered (.ok (.buffer buffer)))
  | submit buffer =>
    some (pool,
      if pool.ended then .answered (.error (Refusal.toError .submittedAfterEnd))
      else .going (countFull buffer))
  | countFull buffer => some (pool.transfer .held .full, .going (offerFull buffer .check))
  | offerFull buffer attempt =>
    (pool.fulls.send (.buffer buffer) cancelled side attempt).map fun (queue, progress) =>
      ({ pool with fulls := queue },
        match progress with
        | .waiting => .going (offerFull buffer .wait)
        | .over (.ok ()) => .answered (.ok .done)
        | .over (.error cause) => .going (recountHeld cause))
  | recountHeld cause => some (pool.transfer .full .held, .answered (.error cause))
  | takeFull attempt =>
    (pool.fulls.receive cancelled side attempt).map fun (queue, progress) =>
      ({ pool with fulls := queue },
        match progress with
        | .waiting => .going (takeFull .wait)
        | .over (.ok (some (.buffer buffer))) => .going (tookFull buffer)
        | .over (.ok (some .endOfInput)) => .answered (.ok (.item .endOfInput))
        | .over (.ok none) => .answered (.error (Refusal.toError .fullsClosed))
        | .over (.error cause) => .answered (.error cause))
  | tookFull buffer => some (pool.transfer .full .held, .answered (.ok (.item (.buffer buffer))))
  | giveBack buffer =>
    some (pool.transfer .held .empty,
      .going (offerEmpty { buffer with batch := buffer.batch.clear } .check))
  | offerEmpty buffer attempt =>
    (pool.empties.send buffer cancelled side attempt).map fun (queue, progress) =>
      ({ pool with empties := queue },
        match progress with
        | .waiting => .going (offerEmpty buffer .wait)
        | .over (.ok ()) => .answered (.ok .done)
        | .over (.error cause) => .going (reclaimHeld cause))
  | reclaimHeld cause => some (pool.transfer .empty .held, .answered (.error cause))
  | signalEnd =>
    if pool.ended then some (pool, .answered (.error (Refusal.toError .endedTwice)))
    else some ({ pool with ended := true }, .going placeEnd)
  | placeEnd =>
    match pool.fulls.offer .endOfInput with
    | .accepted queue => some ({ pool with fulls := queue }, .answered (.ok .done))
    | .refused => some (pool, .answered (.error (Refusal.toError .fullsClosed)))
    | .blocked => some (pool, .answered (.error (Refusal.toError .noRoomForEnd)))
  | drain released =>
    match pool.empties.take with
    | .item _ queue => some ({ pool with empties := queue }, .going (drained released))
    | _ => some (pool, .answered (.ok (.released released)))
  | drained released => some (pool.transfer .empty .released, .going (drain (released + 1)))

/-- Takes steps of an operation while nothing else happens, at most `fuel` of them; none if it
would wait for ever. -/
def run (cancelled : Bool) : Nat → Pool → Call → Option (Pool × Except Error Answer)
  | 0, _, _ => none
  | fuel + 1, pool, call =>
    match call.advance pool cancelled .queue with
    | some (pool, .going next) => run cancelled fuel pool next
    | some (pool, .answered outcome) => some (pool, outcome)
    | none => none

/-- Carries out an operation while nothing else happens.  An operation on one buffer takes at most
five steps, and releasing one buffer takes two. -/
def complete (call : Call) (pool : Pool) (cancelled : Bool) :
    Option (Pool × Except Error Answer) :=
  run cancelled (2 * pool.empties.items.length + 6) pool call

end Call

end TreeExport.Pool

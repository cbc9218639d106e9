import TreeExport.Dump.Download
import TreeExport.Dump.Verdict
import TreeExport.Pool.Call

/-!
# Workers

A worker receives batches of records from the raw queue, judges every record, and packs the entries
into a buffer of the pool, one after the other.  A buffer without room for the next entry is
submitted and an empty one acquired.  At the end of the stream the worker passes the marker on and
submits what it has.
-/

namespace TreeExport

/-- What download, workers and sort-and-store share. -/
structure Shared where
  raw : Queue RawItem
  pool : Pool
  live : LiveCounters := {}

/-- What a worker is about to do; `rest` holds the records that it has received and not taken up. -/
inductive Worker.Phase
  | receiving (attempt : Attempt)
  /-- To take up the next record. -/
  | processing (rest : List Record)
  /-- To put an entry into the buffer. -/
  | placing (path : String) (payload : Bytes) (rest : List Record)
  /-- To acquire a buffer for an entry. -/
  | acquiring (call : Pool.Call) (path : String) (payload : Bytes) (rest : List Record)
  /-- To submit a buffer without room for an entry. -/
  | submitting (call : Pool.Call) (path : String) (payload : Bytes) (rest : List Record)
  /-- To pass on the end of the stream. -/
  | forwarding (attempt : Attempt)
  /-- To give up the last buffer. -/
  | flushing
  | givingUp (call : Pool.Call)
  | finished
  | failed (cause : Error)

/-- A worker: its number, the buffer that it fills, what it has counted, its token, and what it is
about to do. -/
structure Worker where
  id : Nat
  current : Option Buffer := none
  statistics : Statistics := {}
  cancelled : Bool := false
  phase : Worker.Phase := .receiving .check

namespace Worker

/-- How the worker ended, if it has. -/
def outcome? (worker : Worker) : Option (Except Error Unit) :=
  match worker.phase with
  | .finished => some (.ok ())
  | .failed cause => some (.error cause)
  | _ => none

/-- The worker goes on to something else. -/
def goTo (worker : Worker) (phase : Phase) : Worker :=
  { worker with phase := phase }

/-- The failure of a queue that ends without a marker. -/
def queueClosed : Error :=
  .validation "raw record queue closed before end of stream"

/-- The failure of an entry that no buffer has room for. -/
def oversized (path : String) (payload : Bytes) (batch : EntryBatch) : Error :=
  .validation (s!"entry for '{path}' ({payload.length} bytes) is larger than an empty batch " ++
    s!"({batch.capacity} bytes, {batch.maxEntries} entries)")

/-- Takes up a record. -/
def takeUp (extraction : Extraction) (worker : Worker) (live : LiveCounters) (record : Record)
    (rest : List Record) : Worker × LiveCounters :=
  let verdict := extraction.judge record
  let counted := { worker.statistics with processed := worker.statistics.processed + 1 }
  let judged := { worker with statistics := counted.addVerdict verdict }
  let live := live.addProcessed
  let live := if verdict.isRejection then live.addRejected else live
  (match verdict with
    | .malformed fault => judged.goTo (.failed fault.toError)
    | .accepted path =>
      match extraction.payload path record with
      | .error cause => judged.goTo (.failed cause)
      | .ok payload => judged.goTo (.placing path payload rest)
    | _ => judged.goTo (.processing rest),
    live)

/-- Puts an entry into the buffer, or finds out what has to be done first. -/
def place (worker : Worker) (live : LiveCounters) (path : String) (payload : Bytes)
    (rest : List Record) : Worker × LiveCounters :=
  match worker.current with
  | none => (worker.goTo (.acquiring (.takeEmpty .check) path payload rest), live)
  | some buffer =>
    if buffer.batch.hasSpace payload.length then
      match buffer.batch.add path payload with
      | .error fault => (worker.goTo (.failed fault.toError), live)
      | .ok batch =>
        ({ worker with
            current := some { buffer with batch := batch }
            statistics := worker.statistics.addAccepted payload.length
            phase := .processing rest },
          live.addAccepted)
    else if buffer.batch.isEmpty then
      (worker.goTo (.failed (oversized path payload buffer.batch)), live)
    else
      ({ worker with current := none, phase := .submitting (.submit buffer) path payload rest },
        live)

/-- Begins to give up the last buffer. -/
def flush (worker : Worker) : Worker :=
  match worker.current with
  | none => worker.goTo .finished
  | some buffer =>
    { worker with
      current := none
      phase := .givingUp (if buffer.batch.isEmpty then .giveBack buffer else .submit buffer) }

/-- One step of an operation on the pool; `going` and `answered` say how the worker goes on. -/
def callStep (worker : Worker) (shared : Shared) (side : Side) (call : Pool.Call)
    (going : Pool.Call → Phase) (answered : Pool.Answer → Worker) : Option (Worker × Shared) :=
  (call.advance shared.pool worker.cancelled side).map fun (pool, progress) =>
    (match progress with
      | .going next => worker.goTo (going next)
      | .answered (.ok answer) => answered answer
      | .answered (.error cause) => worker.goTo (.failed cause),
      { shared with pool := pool })

/-- The next step of the worker and what becomes of what it shares; none if the side that is named
is not ready or the worker is over. -/
def step? (extraction : Extraction) (side : Side) (worker : Worker) (shared : Shared) :
    Option (Worker × Shared) :=
  match worker.phase with
  | .receiving attempt =>
    (shared.raw.receive worker.cancelled side attempt).map fun (raw, progress) =>
      (match progress with
        | .waiting => worker.goTo (.receiving .wait)
        | .over (.ok (some (.batch batch))) => worker.goTo (.processing batch.records)
        | .over (.ok (some .endOfStream)) => worker.goTo (.forwarding .check)
        | .over (.ok none) => worker.goTo (.failed queueClosed)
        | .over (.error cause) => worker.goTo (.failed cause),
        { shared with raw := raw })
  | .processing [] => some (worker.goTo (.receiving .check), shared)
  | .processing (record :: rest) =>
    let (worker, live) := worker.takeUp extraction shared.live record rest
    some (worker, { shared with live := live })
  | .placing path payload rest =>
    let (worker, live) := worker.place shared.live path payload rest
    some (worker, { shared with live := live })
  | .acquiring call path payload rest =>
    worker.callStep shared side call (.acquiring · path payload rest) fun
      | .buffer buffer =>
        { worker with current := some buffer, phase := .placing path payload rest }
      | _ => worker.goTo (.placing path payload rest)
  | .submitting call path payload rest =>
    worker.callStep shared side call (.submitting · path payload rest) fun _ =>
      worker.goTo (.placing path payload rest)
  | .forwarding attempt =>
    (shared.raw.send .endOfStream worker.cancelled side attempt).map fun (raw, progress) =>
      (match progress with
        | .waiting => worker.goTo (.forwarding .wait)
        | .over (.ok ()) => worker.goTo .flushing
        | .over (.error cause) => worker.goTo (.failed cause),
        { shared with raw := raw })
  | .flushing => some (worker.flush, shared)
  | .givingUp call => worker.callStep shared side call .givingUp fun _ => worker.goTo .finished
  | .finished => none
  | .failed _ => none

end Worker

end TreeExport

import TreeExport.Dump.Storer
import TreeExport.Dump.Worker
import TreeExport.Total

/-!
# A stage by itself

A stage that finds all it needs in its queues can run while nothing else happens.  Each of these
runs takes steps until the stage is over; a worker that would wait for ever is cancelled.
-/

namespace TreeExport

namespace Download

variable {σ : Type}

/-- Takes steps of a download, at most `fuel` of them. -/
def runFor [RecordSource σ] (request : BatchRequest) :
    Nat → Download σ → Queue RawItem → Download σ × Queue RawItem
  | 0, download, raw => (download, raw)
  | fuel + 1, download, raw =>
    match download.step? request .queue raw with
    | some (download, raw) => runFor request fuel download raw
    | none => (download, raw)

/-- Runs a download; there are no more batches than its source weighs, and none takes more steps
than four. -/
def runAlone [RecordSource σ] (request : BatchRequest) (download : Download σ)
    (raw : Queue RawItem) : Download σ × Queue RawItem :=
  runFor request (4 * (RecordSource.weight download.source + 4)) download raw

end Download

namespace Worker

/-- Takes steps of a worker, at most `fuel` of them; the last part of the answer says whether it had
to be cancelled. -/
def runFor (extraction : Extraction) (stuck : Bool) :
    Nat → Worker → Shared → Worker × Shared × Bool
  | 0, worker, shared => (worker, shared, stuck)
  | fuel + 1, worker, shared =>
    match worker.step? extraction .queue shared with
    | some (worker, shared) => runFor extraction stuck fuel worker shared
    | none =>
      match worker.outcome?, worker.step? extraction .token shared with
      | some _, _ => (worker, shared, stuck)
      | none, some (worker, shared) => runFor extraction stuck fuel worker shared
      | none, none => runFor extraction true fuel { worker with cancelled := true } shared

/-- The number of batches and records that wait in the raw queue. -/
def pendingWork (raw : Queue RawItem) : Nat :=
  total (raw.items.map fun
    | .batch batch => batch.length + 1
    | .endOfStream => 1)

/-- Runs a worker; no batch and no record takes more steps than this allows for it. -/
def runAlone (extraction : Extraction) (worker : Worker) (shared : Shared) :
    Worker × Shared × Bool :=
  worker.runFor extraction false (32 * (pendingWork shared.raw + 4)) shared

end Worker

namespace Storer

/-- Takes steps of sort-and-store, at most `fuel` of them. -/
def runFor : Nat → Storer → Pool → Program (Storer × Pool)
  | 0, storer, pool => pure (storer, pool)
  | fuel + 1, storer, pool =>
    match storer.step? .queue pool with
    | some program => do
      let (storer, pool) ← program
      runFor fuel storer pool
    | none => pure (storer, pool)

/-- Runs sort-and-store; no full buffer takes more steps than sixteen. -/
def runAlone (storer : Storer) (pool : Pool) : Program (Storer × Pool) :=
  storer.runFor (16 * (pool.fulls.items.length + 1)) pool

end Storer

end TreeExport

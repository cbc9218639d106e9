import TreeExport.Dump.Storer
import TreeExport.Dump.Worker
import TreeExport.Settings

/-!
# The coordinator

The coordinator waits for the stages to end, in whatever order they do.  Once the last worker has
ended it signals the end of input; once all stages have ended it closes the store.  At the first
stage that fails it cancels the others in a fixed order and waits for them; that failure is the
run's.
-/

namespace TreeExport

/-- The state of a run, as its coordinator sees it. -/
inductive RunState
  | starting
  | running
  /-- All workers have ended; sort-and-store has not. -/
  | draining
  | terminated (success : Bool)
  deriving Repr, DecidableEq

/-- What a run tells while it goes on. -/
inductive Event
  | opening
  | dumping
  | merging
  /-- A stage has ended well, after so many records or entries. -/
  | ended (stage : Stage) (count : Nat)
  /-- The run has ended well, with its store in a directory. -/
  | done (directory : String)
  deriving Repr, DecidableEq

/-- The name of the phase that begins with an event, if one does. -/
def Event.phase? : Event → Option String
  | opening => some "Opening output store"
  | dumping => some "Dumping documents"
  | merging => some "Merging sorted segments"
  | ended _ _ => none
  | done _ => none

/-- A stage and what it has done, if the event is its end. -/
def Event.summary? : Event → Option (Stage × String)
  | ended .download count => some (.download, s!"{count} documents downloaded")
  | ended (.transform worker) count => some (.transform worker, s!"{count} entries extracted")
  | ended .sortAndStore count => some (.sortAndStore, s!"{count} entries stored")
  | _ => none

/-- What a successful run yields. -/
structure RunResult where
  directory : String
  manifest : Manifest
  downloaded : Nat
  extracted : Nat
  stored : Nat
  statistics : Statistics
  elapsed : Nat

/-- What the coordinator is about to do. -/
inductive Coordinator.Phase
  /-- To declare the run running. -/
  | starting
  /-- To wait for a stage, or to close the store if none is left. -/
  | waiting
  /-- To signal the end of input. -/
  | signalling (call : Pool.Call)
  /-- To release the buffers, after sort-and-store has stored so many entries. -/
  | draining (call : Pool.Call)
  /-- To give up the run. -/
  | aborting (cause : Error)
  /-- To cancel the stages that are left, in turn. -/
  | cancelling (cause : Error) (left : List Stage)
  /-- To wait for the stages that are cancelled. -/
  | shuttingDown (cause : Error) (left : List Stage)
  | closing
  | returned (result : Except Error RunResult)

/-- The coordinator: the state of the run, the stages that it has not seen the end of, what it has
gathered from the others, and what it is about to do. -/
structure Coordinator where
  outstanding : List Stage
  state : RunState := .starting
  workersDone : Nat := 0
  extracted : Nat := 0
  statistics : Statistics := {}
  downloaded : Option Nat := none
  stored : Option (Nat × Store.Writer) := none
  events : List Event := []
  report : Report := {}
  phase : Coordinator.Phase := .starting

namespace Coordinator

/-- The coordinator goes on to something else. -/
def goTo (coordinator : Coordinator) (phase : Phase) : Coordinator :=
  { coordinator with phase := phase }

/-- Tells of an event. -/
def tell (coordinator : Coordinator) (event : Event) : Coordinator :=
  { coordinator with events := coordinator.events ++ [event] }

/-- Takes a stage off the list of those that are outstanding. -/
def strike (coordinator : Coordinator) (stage : Stage) : Coordinator :=
  { coordinator with outstanding := coordinator.outstanding.filter (· != stage) }

/-- The failure of a run without stages that has missed the end of one. -/
def incomplete : Error :=
  .validation "pipeline ended without every stage reporting"

/-- Takes note of the end of the download. -/
def joinDownload {σ : Type} (coordinator : Coordinator) (download : Download σ) : Coordinator :=
  { coordinator with downloaded := some download.documents }.tell
    (.ended .download download.documents)

/-- Takes note of the end of one of `workers` workers. -/
def joinWorker (coordinator : Coordinator) (workers : Nat) (worker : Worker) : Coordinator :=
  let noted := { coordinator with
    extracted := coordinator.extracted + worker.statistics.accepted
    statistics := coordinator.statistics.merge worker.statistics
    workersDone := coordinator.workersDone + 1 }.tell
      (.ended (.transform worker.id) worker.statistics.accepted)
  if noted.workersDone = workers then
    { noted with state := .draining, phase := .signalling .signalEnd }
  else noted

/-- Takes note of the end of sort-and-store. -/
def joinStorer (coordinator : Coordinator) (storer : Storer) : Coordinator :=
  { coordinator with
    stored := some (storer.entries, storer.writer)
    phase := .draining (.drain 0) }

/-- Goes on once the end of input is signalled. -/
def signalled (coordinator : Coordinator) : Coordinator :=
  { coordinator with
    report := coordinator.statistics.publish coordinator.report
    phase := .waiting }

/-- Goes on once the buffers are released. -/
def drained (coordinator : Coordinator) : Coordinator :=
  (coordinator.goTo .waiting).tell
    (.ended .sortAndStore ((coordinator.stored.map (·.1)).getD 0))

/-- Takes note of what the run has counted and tells of its end. -/
def succeed (coordinator : Coordinator) (result : RunResult) : Coordinator :=
  let report := coordinator.report.addTiming "pipelined_dump" (Moment.durationText result.elapsed)
  let report := report.addMetric "documents_downloaded" result.downloaded
  let report := report.addMetric "entries_extracted" result.extracted
  let report := report.addMetric "entries_stored" result.stored
  { coordinator with
    state := .terminated true
    report := report
    phase := .returned (.ok result) }.tell (.done result.directory)

/-- Takes note of the failure of the run. -/
def giveUp (coordinator : Coordinator) (cause : Error) : Coordinator :=
  { coordinator with state := .terminated false, phase := .returned (.error cause) }

end Coordinator

end TreeExport

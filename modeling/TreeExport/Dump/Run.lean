import TreeExport.Dump.Step

/-!
# Running a dump

`Job.run` opens the store, takes steps in turns until the coordinator returns, and tells what came
of it.  The turns are one order of steps out of many; what is said of every order holds of this one.
-/

namespace TreeExport

namespace Dump

variable {σ : Type}

/-- The actions of one round: each party in turn, on either side. -/
def actions (workers : Nat) : List Action :=
  let stages := List.range workers
  [.coordinate, .join .download, .download .queue, .download .token] ++
    (stages.flatMap fun id => [.join (.transform id), .worker id .queue, .worker id .token]) ++
    [.join .sortAndStore, .storer .queue, .storer .token]

/-- Takes those of some actions that are possible, in turn. -/
def takeActions [RecordSource σ] (job : Job σ) : List Action → Dump σ → Program (Dump σ)
  | [], dump => pure dump
  | action :: rest, dump =>
    match dump.step? job action with
    | none => takeActions job rest dump
    | some program => do takeActions job rest (← program)

/-- What the coordinator has returned. -/
def result? (dump : Dump σ) : Option (Except Error RunResult) :=
  match dump.coordinator.phase with
  | .returned result => some result
  | _ => none

/-- Takes rounds until the coordinator returns, but no more than `fuel` of them. -/
def takeRounds [RecordSource σ] (job : Job σ) : Nat → Dump σ → Program (Dump σ)
  | 0, dump => pure dump
  | fuel + 1, dump =>
    match dump.result? with
    | some _ => pure dump
    | none => do takeRounds job fuel (← takeActions job (actions job.settings.workers) dump)

end Dump

/-- What comes of a run: its result, what it told, and its report. -/
structure RunOutcome where
  result : Except Error RunResult
  events : List Event
  report : Report

namespace Job

variable {σ : Type}

/-- The dump that a configuration and a source make on a machine with a number of free mebibytes. -/
def ofConfig (config : PipelineConfig) (free : Nat) (source : σ) (directory : String) :
    Except Error (Job σ) := do
  let settings ← Settings.resolve config free
  pure
    { settings := settings
      source := source
      directory := directory
      extraction := ⟨fun _ => true, .passthrough⟩
      report := Report.addConfigs {} (Settings.reportEntries config settings) }

/-- A bound on the number of rounds: no record, list of records, worker or buffer is the occasion of
more steps than this allows for it. -/
def maxRounds [RecordSource σ] (job : Job σ) : Nat :=
  64 * (RecordSource.weight job.source + job.settings.workers + job.settings.budget.buffers + 4)

/-- Runs a dump. -/
def run [RecordSource σ] (job : Job σ) : Program RunOutcome := do
  let started ← Program.now pure
  match ← (Store.Writer.openAt job.directory).run with
  | .error cause => pure ⟨.error cause, [.opening], job.report⟩
  | .ok writer =>
    let dump ← Dump.takeRounds job job.maxRounds (Dump.start job writer started)
    let coordinator := dump.coordinator
    pure ⟨dump.result?.getD (.error Coordinator.incomplete), coordinator.events, coordinator.report⟩

end Job

end TreeExport

import TreeExport.Dump.Coordinator

/-!
# The steps of a dump

The stages of a dump run at the same time.  A `Dump` is the state of all of them and of what they
share; an `Action` names who takes the next step.  Any order of actions is possible as long as each
of them is: `Dump.step?` is none if the one who is named cannot take a step.  A step of
sort-and-store or of the coordinator may work on files, so a step is a program.
-/

namespace TreeExport

/-- A dump that is to be run: its settings, the source of its records, which of them the source is
asked for, what is made of them, the directory of the store, and the label for its manifest. -/
structure Job (σ : Type) where
  settings : Settings
  source : σ
  directory : String
  extraction : Extraction
  filters : List PathFilter := []
  checkpoint : Option String := none
  report : Report := {}

namespace Job

variable {σ : Type}

/-- What the source is asked for, again and again. -/
def request (job : Job σ) : BatchRequest where
  maxBytes := job.settings.batchBytes
  maxDocuments := job.settings.batchDocuments
  filters := job.filters

/-- The stages of a dump, in the order in which they are cancelled. -/
def stages (job : Job σ) : List Stage :=
  .download :: ((List.range job.settings.workers).map .transform ++ [.sortAndStore])

end Job

/-- The state of a dump. -/
structure Dump (σ : Type) where
  download : Download σ
  workers : List Worker
  storer : Storer
  shared : Shared
  coordinator : Coordinator
  /-- When the dump was started. -/
  started : Moment

/-- Who takes the next step.  Where a stage waits for a queue and for its token, the action names
the side. -/
inductive Action
  | download (side : Side)
  | worker (id : Nat) (side : Side)
  | storer (side : Side)
  /-- The coordinator sees that a stage has ended. -/
  | join (stage : Stage)
  /-- The coordinator does what it is about to do. -/
  | coordinate
  deriving Repr, DecidableEq

namespace Dump

variable {σ : Type}

/-- The raw queue without the ends that a stage held, if the stage has just ended. -/
def leaveRaw (ended receives : Bool) (raw : Queue RawItem) : Queue RawItem :=
  if ended then (if receives then raw.dropSender.dropReceiver else raw.dropSender) else raw

/-- How a stage ended, if it has. -/
def outcome? (dump : Dump σ) : Stage → Option (Except Error Unit)
  | .download => dump.download.outcome?
  | .transform id => dump.workers[id]?.bind Worker.outcome?
  | .sortAndStore => dump.storer.outcome?

/-- Cancels a stage. -/
def cancel (dump : Dump σ) : Stage → Dump σ
  | .download => { dump with download := { dump.download with cancelled := true } }
  | .transform id =>
    { dump with workers := dump.workers.modify id fun worker => { worker with cancelled := true } }
  | .sortAndStore => { dump with storer := { dump.storer with cancelled := true } }

/-- The dump with another coordinator. -/
def withCoordinator (dump : Dump σ) (coordinator : Coordinator) : Dump σ :=
  { dump with coordinator := coordinator }

/-- The coordinator takes note of a stage that has ended well. -/
def noteEnd (dump : Dump σ) (coordinator : Coordinator) : Stage → Dump σ
  | .download => dump.withCoordinator (coordinator.joinDownload dump.download)
  | .transform id =>
    match dump.workers[id]? with
    | some worker =>
      dump.withCoordinator (coordinator.joinWorker dump.workers.length worker)
    | none => dump
  | .sortAndStore => dump.withCoordinator (coordinator.joinStorer dump.storer)

/-- The coordinator sees that a stage has ended; none if it is not waiting for that stage or the
stage has not ended. -/
def join? (dump : Dump σ) (stage : Stage) : Option (Dump σ) :=
  match dump.coordinator.phase, dump.outcome? stage with
  | .waiting, some outcome =>
    if stage ∈ dump.coordinator.outstanding then
      let struck := dump.coordinator.strike stage
      match outcome with
      | .ok () => some (dump.noteEnd struck stage)
      | .error cause => some (dump.withCoordinator (struck.goTo (.aborting (cause.stage stage))))
    else none
  | .shuttingDown cause left, some _ =>
    if stage ∈ left then
      some (dump.withCoordinator
        (dump.coordinator.goTo (.shuttingDown cause (left.filter (· != stage)))))
    else none
  | _, _ => none

/-- One step of an operation of the coordinator on the pool. -/
def callStep (dump : Dump σ) (call : Pool.Call) (going : Pool.Call → Coordinator.Phase)
    (answered : Coordinator → Coordinator) : Option (Program (Dump σ)) :=
  (call.advance dump.shared.pool false .queue).map fun (pool, progress) =>
    pure
      { dump with
        shared := { dump.shared with pool := pool }
        coordinator :=
          match progress with
          | .going next => dump.coordinator.goTo (going next)
          | .answered (.ok _) => answered dump.coordinator
          | .answered (.error cause) => dump.coordinator.goTo (.aborting cause) }

/-- Closes the store of a dump all of whose stages have ended well. -/
def close (dump : Dump σ) (downloaded stored : Nat) (writer : Store.Writer) :
    Program Coordinator := do
  match ← writer.close.run with
  | .error cause => pure (dump.coordinator.giveUp (cause.stage .sortAndStore))
  | .ok manifest =>
    let finished ← Program.now pure
    pure (dump.coordinator.succeed
      { directory := writer.directory
        manifest := manifest
        downloaded := downloaded
        extracted := dump.coordinator.extracted
        stored := stored
        statistics := dump.coordinator.statistics
        elapsed := Moment.elapsed dump.started finished })

/-- The coordinator does what it is about to do; none if it has to wait for a stage or has
returned. -/
def coordinate? (dump : Dump σ) : Option (Program (Dump σ)) :=
  let coordinator := dump.coordinator
  match coordinator.phase with
  | .starting =>
    some (pure
      { dump with
        shared := { dump.shared with raw := leaveRaw true true dump.shared.raw }
        coordinator := { coordinator with state := .running, phase := .waiting }.tell .dumping })
  | .waiting =>
    if coordinator.outstanding.isEmpty then
      match coordinator.downloaded, coordinator.stored with
      | some _, some _ =>
        some (pure (dump.withCoordinator ((coordinator.goTo .closing).tell .merging)))
      | _, _ =>
        some (pure (dump.withCoordinator
          (coordinator.goTo (.aborting Coordinator.incomplete))))
    else none
  | .signalling call => dump.callStep call .signalling (·.signalled)
  | .draining call => dump.callStep call .draining (·.drained)
  | .aborting cause =>
    some (pure (dump.withCoordinator
      { coordinator with
        state := .terminated false
        phase := .cancelling cause coordinator.outstanding }))
  | .cancelling cause (stage :: left) =>
    some (pure ((dump.cancel stage).withCoordinator (coordinator.goTo (.cancelling cause left))))
  | .cancelling cause [] =>
    some (pure (dump.withCoordinator
      (coordinator.goTo (.shuttingDown cause coordinator.outstanding))))
  | .shuttingDown cause [] => some (pure (dump.withCoordinator (coordinator.giveUp cause)))
  | .shuttingDown _ (_ :: _) => none
  | .closing =>
    match coordinator.downloaded, coordinator.stored with
    | some downloaded, some (stored, writer) =>
      some do pure (dump.withCoordinator (← dump.close downloaded stored writer))
    | _, _ => some (pure (dump.withCoordinator (coordinator.giveUp Coordinator.incomplete)))
  | .returned _ => none

/-- The step that an action takes; none if it is not possible. -/
def step? [RecordSource σ] (job : Job σ) (dump : Dump σ) : Action → Option (Program (Dump σ))
  | .download side =>
    (dump.download.step? job.request side dump.shared.raw).map fun (download, raw) =>
      pure
        { dump with
          download := download
          shared := { dump.shared with raw := leaveRaw download.outcome?.isSome false raw } }
  | .worker id side =>
    dump.workers[id]?.bind fun worker =>
      (worker.step? job.extraction side dump.shared).map fun (worker, shared) =>
        pure
          { dump with
            workers := dump.workers.set id worker
            shared := { shared with raw := leaveRaw worker.outcome?.isSome true shared.raw } }
  | .storer side =>
    (dump.storer.step? side dump.shared.pool).map fun program => do
      let (storer, pool) ← program
      pure { dump with storer := storer, shared := { dump.shared with pool := pool } }
  | .join stage => (dump.join? stage).map pure
  | .coordinate => dump.coordinate?

/-- The start of a dump on a store that has been opened. -/
def start (job : Job σ) (writer : Store.Writer) (time : Moment) : Dump σ where
  download := { source := job.source }
  workers := (List.range job.settings.workers).map fun id => { id := id }
  storer := { writer := { writer with checkpoint := job.checkpoint } }
  shared :=
    { raw :=
        { capacity := job.settings.queueCapacity
          senders := job.settings.workers + 2
          receivers := job.settings.workers + 2 }
      pool :=
        .create job.settings.budget.buffers job.settings.budget.bufferBytes
          job.settings.budget.entriesPerBuffer }
  coordinator := { outstanding := job.stages, events := [.opening], report := job.report }
  started := time

end Dump

end TreeExport

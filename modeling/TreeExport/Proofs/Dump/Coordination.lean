import TreeExport.Dump.Step
import TreeExport.Proofs.Dump.Stages
import TreeExport.Proofs.Totals

/-!
# What the coordinator can do

`Dump.Joins` has one rule for each way in which the coordinator sees a stage end, and
`Dump.Coordinates` one for each thing that it does by itself.
-/

namespace TreeExport

/-- The coordinator with the counts of a worker that has ended. -/
def Coordinator.noteWorker (coordinator : Coordinator) (worker : Worker) : Coordinator :=
  { coordinator with
    extracted := coordinator.extracted + worker.statistics.accepted
    statistics := coordinator.statistics.merge worker.statistics
    workersDone := coordinator.workersDone + 1 }.tell
      (.ended (.transform worker.id) worker.statistics.accepted)

namespace Dump

variable {σ : Type} {dump after : Dump σ} {files : Files}

/-- The dump with another pool. -/
def withPool (dump : Dump σ) (pool : Pool) : Dump σ :=
  { dump with shared := { dump.shared with pool := pool } }

@[simp] theorem withPool_coordinator (dump : Dump σ) (pool : Pool) :
    (dump.withPool pool).coordinator = dump.coordinator := rfl

@[simp] theorem withCoordinator_coordinator (dump : Dump σ) (coordinator : Coordinator) :
    (dump.withCoordinator coordinator).coordinator = coordinator := rfl

@[simp] theorem cancel_coordinator (dump : Dump σ) (stage : Stage) :
    (dump.cancel stage).coordinator = dump.coordinator := by
  cases stage <;> rfl

@[simp] theorem cancel_shared (dump : Dump σ) (stage : Stage) :
    (dump.cancel stage).shared = dump.shared := by
  cases stage <;> rfl

/-- Nothing but its token changes of a worker that is cancelled. -/
theorem map_cancel_workers {β : Type} {f : Worker → β}
    (same : ∀ worker : Worker, f { worker with cancelled := true } = f worker) (dump : Dump σ)
    (stage : Stage) : (dump.cancel stage).workers.map f = dump.workers.map f := by
  cases stage with
  | transform id => exact map_modify same id
  | _ => rfl

theorem forall_mem_cancel_workers {kept : Worker → Prop} {dump : Dump σ}
    (keeps : ∀ worker : Worker, kept worker → kept { worker with cancelled := true })
    (all : ∀ worker ∈ dump.workers, kept worker) (stage : Stage) :
    ∀ worker ∈ (dump.cancel stage).workers, kept worker := by
  cases stage with
  | transform id => exact forall_mem_modify id keeps all
  | _ => exact all

/-! ## Seeing a stage end -/

/-- What the coordinator makes of the end of a stage. -/
inductive Joins (dump : Dump σ) : Stage → Dump σ → Prop
  | download (phase : dump.coordinator.phase = .waiting)
      (here : .download ∈ dump.coordinator.outstanding) (isOver : dump.download.phase = .finished) :
      Joins dump .download (dump.withCoordinator
        ((dump.coordinator.strike .download).joinDownload dump.download))
  | worker {id : Nat} {worker : Worker} (phase : dump.coordinator.phase = .waiting)
      (here : .transform id ∈ dump.coordinator.outstanding)
      (there : dump.workers[id]? = some worker) (isOver : worker.phase = .finished)
      (more : dump.coordinator.workersDone + 1 ≠ dump.workers.length) :
      Joins dump (.transform id) (dump.withCoordinator
        ((dump.coordinator.strike (.transform id)).noteWorker worker))
  | lastWorker {id : Nat} {worker : Worker} (phase : dump.coordinator.phase = .waiting)
      (here : .transform id ∈ dump.coordinator.outstanding)
      (there : dump.workers[id]? = some worker) (isOver : worker.phase = .finished)
      (last : dump.coordinator.workersDone + 1 = dump.workers.length) :
      Joins dump (.transform id) (dump.withCoordinator
        { (dump.coordinator.strike (.transform id)).noteWorker worker with
          state := .draining, phase := .signalling .signalEnd })
  | storer (phase : dump.coordinator.phase = .waiting)
      (here : .sortAndStore ∈ dump.coordinator.outstanding)
      (isOver : dump.storer.phase = .finished) :
      Joins dump .sortAndStore (dump.withCoordinator
        ((dump.coordinator.strike .sortAndStore).joinStorer dump.storer))
  | badly {stage : Stage} {cause : Error} (phase : dump.coordinator.phase = .waiting)
      (here : stage ∈ dump.coordinator.outstanding)
      (outcome : dump.outcome? stage = some (.error cause)) :
      Joins dump stage (dump.withCoordinator
        ((dump.coordinator.strike stage).goTo (.aborting (cause.stage stage))))
  | late {stage : Stage} {cause : Error} {left : List Stage}
      (phase : dump.coordinator.phase = .shuttingDown cause left) (here : stage ∈ left)
      (outcome : (dump.outcome? stage).isSome) :
      Joins dump stage (dump.withCoordinator
        (dump.coordinator.goTo (.shuttingDown cause (left.filter (· != stage)))))

theorem joins_of_noteEnd {stage : Stage} (phase : dump.coordinator.phase = .waiting)
    (here : stage ∈ dump.coordinator.outstanding)
    (outcome : dump.outcome? stage = some (.ok ())) :
    Joins dump stage (dump.noteEnd (dump.coordinator.strike stage) stage) := by
  cases stage with
  | download => exact .download phase here (Download.phase_eq_finished outcome)
  | transform id =>
    obtain ⟨worker, there, isOver⟩ := Option.bind_eq_some_iff.mp outcome
    have finished := Worker.phase_eq_finished isOver
    simp only [noteEnd, there, Coordinator.joinWorker]
    split
    · next last => exact .lastWorker phase here there finished last
    · next more => exact .worker phase here there finished more
  | sortAndStore => exact .storer phase here (Storer.phase_eq_finished outcome)

theorem joins_of_join {stage : Stage} (step : dump.join? stage = some after) :
    Joins dump stage after := by
  unfold join? at step
  cases phase : dump.coordinator.phase with
  | waiting =>
    cases outcome : dump.outcome? stage with
    | none =>
      simp only [phase, outcome] at step
      cases step
    | some ended =>
      simp only [phase, outcome] at step
      split at step
      · next here =>
        cases ended with
        | ok =>
          cases step
          exact joins_of_noteEnd phase here outcome
        | error cause =>
          cases step
          exact .badly phase here outcome
      · cases step
  | shuttingDown cause left =>
    cases outcome : dump.outcome? stage with
    | none =>
      simp only [phase, outcome] at step
      cases step
    | some ended =>
      simp only [phase, outcome] at step
      split at step
      · next here =>
        cases step
        exact .late phase here (by rw [outcome]; rfl)
      · cases step
  | _ =>
    simp only [phase] at step
    cases step

/-! ## Acting by itself -/

/-- What the coordinator can do at a time, where it may be assured that operations on files
succeed. -/
inductive Coordinates (assured : Prop) (time : Moment) (dump : Dump σ) (files : Files) :
    Dump σ → Files → Prop
  | started (phase : dump.coordinator.phase = .starting) :
      Coordinates assured time dump files
        { dump with
          shared := { dump.shared with raw := leaveRaw true true dump.shared.raw }
          coordinator :=
            { dump.coordinator with state := .running, phase := .waiting }.tell .dumping }
        files
  | allSeen {downloaded : Nat} {stored : Nat × Store.Writer}
      (phase : dump.coordinator.phase = .waiting) (isOver : dump.coordinator.outstanding = [])
      (first : dump.coordinator.downloaded = some downloaded)
      (last : dump.coordinator.stored = some stored) :
      Coordinates assured time dump files
        (dump.withCoordinator ((dump.coordinator.goTo .closing).tell .merging)) files
  | missed (phase : dump.coordinator.phase = .waiting) (isOver : dump.coordinator.outstanding = [])
      (missing : dump.coordinator.downloaded = none ∨ dump.coordinator.stored = none) :
      Coordinates assured time dump files
        (dump.withCoordinator (dump.coordinator.goTo (.aborting Coordinator.incomplete))) files
  | signalling {call next : Pool.Call} {pool : Pool}
      (phase : dump.coordinator.phase = .signalling call)
      (step : Pool.Call.Advances dump.shared.pool false call pool (.going next)) :
      Coordinates assured time dump files
        ((dump.withPool pool).withCoordinator (dump.coordinator.goTo (.signalling next))) files
  | signalled {call : Pool.Call} {pool : Pool} {answer : Pool.Answer}
      (phase : dump.coordinator.phase = .signalling call)
      (step : Pool.Call.Advances dump.shared.pool false call pool (.answered (.ok answer))) :
      Coordinates assured time dump files
        ((dump.withPool pool).withCoordinator dump.coordinator.signalled) files
  | signalFailed {call : Pool.Call} {pool : Pool} {cause : Error}
      (phase : dump.coordinator.phase = .signalling call)
      (step : Pool.Call.Advances dump.shared.pool false call pool (.answered (.error cause))) :
      Coordinates assured time dump files
        ((dump.withPool pool).withCoordinator (dump.coordinator.goTo (.aborting cause))) files
  | draining {call next : Pool.Call} {pool : Pool}
      (phase : dump.coordinator.phase = .draining call)
      (step : Pool.Call.Advances dump.shared.pool false call pool (.going next)) :
      Coordinates assured time dump files
        ((dump.withPool pool).withCoordinator (dump.coordinator.goTo (.draining next))) files
  | drained {call : Pool.Call} {pool : Pool} {answer : Pool.Answer}
      (phase : dump.coordinator.phase = .draining call)
      (step : Pool.Call.Advances dump.shared.pool false call pool (.answered (.ok answer))) :
      Coordinates assured time dump files
        ((dump.withPool pool).withCoordinator dump.coordinator.drained) files
  | drainFailed {call : Pool.Call} {pool : Pool} {cause : Error}
      (phase : dump.coordinator.phase = .draining call)
      (step : Pool.Call.Advances dump.shared.pool false call pool (.answered (.error cause))) :
      Coordinates assured time dump files
        ((dump.withPool pool).withCoordinator (dump.coordinator.goTo (.aborting cause))) files
  | aborted {cause : Error} (phase : dump.coordinator.phase = .aborting cause) :
      Coordinates assured time dump files
        (dump.withCoordinator
          { dump.coordinator with
            state := .terminated false
            phase := .cancelling cause dump.coordinator.outstanding }) files
  | cancelled {cause : Error} {stage : Stage} {left : List Stage}
      (phase : dump.coordinator.phase = .cancelling cause (stage :: left)) :
      Coordinates assured time dump files
        ((dump.cancel stage).withCoordinator (dump.coordinator.goTo (.cancelling cause left))) files
  | allCancelled {cause : Error} (phase : dump.coordinator.phase = .cancelling cause []) :
      Coordinates assured time dump files
        (dump.withCoordinator
          (dump.coordinator.goTo (.shuttingDown cause dump.coordinator.outstanding))) files
  | gaveUp {cause : Error} (phase : dump.coordinator.phase = .shuttingDown cause []) :
      Coordinates assured time dump files (dump.withCoordinator (dump.coordinator.giveUp cause))
        files
  | closed {downloaded stored : Nat} {writer : Store.Writer} {manifest : Manifest}
      {changed : Files} (phase : dump.coordinator.phase = .closing)
      (first : dump.coordinator.downloaded = some downloaded)
      (last : dump.coordinator.stored = some (stored, writer))
      (done : writer.close.runOn time files = (.ok manifest, changed)) :
      Coordinates assured time dump files
        (dump.withCoordinator (dump.coordinator.succeed
          { directory := writer.directory
            manifest := manifest
            downloaded := downloaded
            extracted := dump.coordinator.extracted
            stored := stored
            statistics := dump.coordinator.statistics
            elapsed := Moment.elapsed dump.started time })) changed
  | closeFailed {stored : Nat} {writer : Store.Writer} {cause : Error} {changed : Files}
      (phase : dump.coordinator.phase = .closing)
      (last : dump.coordinator.stored = some (stored, writer))
      (failed : writer.close.runOn time files = (.error cause, changed))
      (steady : assured → Program.Steady time writer.close.run files) :
      Coordinates assured time dump files
        (dump.withCoordinator (dump.coordinator.giveUp (cause.stage .sortAndStore))) changed
  | closedNothing (phase : dump.coordinator.phase = .closing)
      (missing : dump.coordinator.downloaded = none ∨ dump.coordinator.stored = none) :
      Coordinates assured time dump files
        (dump.withCoordinator (dump.coordinator.giveUp Coordinator.incomplete)) files

variable {assured : Prop} {time : Moment} {program : Program (Dump σ)} {changed : Files}

theorem coordinates_of_callStep {call : Pool.Call} {going : Pool.Call → Coordinator.Phase}
    {answered : Coordinator → Coordinator} (isOpen : dump.shared.pool.IsOpen)
    (step : dump.callStep call going answered = some program)
    (ran : program.run time files = (after, changed)) :
    changed = files ∧ ∃ pool progress,
      Pool.Call.Advances dump.shared.pool false call pool progress ∧
        after = (dump.withPool pool).withCoordinator
          (match progress with
            | .going next => dump.coordinator.goTo (going next)
            | .answered (.ok _) => answered dump.coordinator
            | .answered (.error cause) => dump.coordinator.goTo (.aborting cause)) := by
  obtain ⟨⟨pool, progress⟩, advanced, rfl⟩ := Option.map_eq_some_iff.mp step
  cases ran
  exact ⟨rfl, pool, progress, Pool.Call.advances_of_advance isOpen advanced, rfl⟩

theorem coordinates_of_close {downloaded stored : Nat} {writer : Store.Writer}
    (phase : dump.coordinator.phase = .closing)
    (first : dump.coordinator.downloaded = some downloaded)
    (last : dump.coordinator.stored = some (stored, writer))
    (ran : (do pure (dump.withCoordinator (← dump.close downloaded stored writer)) :
      Program (Dump σ)).run time files = (after, changed))
    (steady : assured → Program.Steady time (do
      pure (dump.withCoordinator (← dump.close downloaded stored writer)) : Program (Dump σ))
        files) :
    Coordinates assured time dump files after changed := by
  rcases outcome : writer.close.runOn time files with ⟨answer, left⟩
  have answered : writer.close.run.run time files = (answer, left) := outcome
  simp only [close, bind, Program.run_andThen, answered] at ran
  cases answer with
  | ok manifest =>
    cases ran
    exact .closed phase first last outcome
  | error cause =>
    cases ran
    refine .closeFailed phase last outcome fun sure => ?_
    exact ((Program.steady_andThen _ _ _ _).mp ((Program.steady_andThen _ _ _ _).mp (steady sure)).1).1

theorem coordinates_of_coordinate (isOpen : dump.shared.pool.IsOpen)
    (step : dump.coordinate? = some program) (ran : program.run time files = (after, changed))
    (steady : assured → Program.Steady time program files) :
    Coordinates assured time dump files after changed := by
  unfold coordinate? at step
  cases phase : dump.coordinator.phase with
  | starting =>
    simp only [phase] at step
    cases step
    cases ran
    exact .started phase
  | waiting =>
    simp only [phase] at step
    split at step
    · next none =>
      rw [List.isEmpty_iff] at none
      split at step
      · next first last =>
        cases step
        cases ran
        exact .allSeen phase none first last
      · next missing =>
        cases step
        cases ran
        refine .missed phase none ?_
        cases first : dump.coordinator.downloaded with
        | none => exact .inl rfl
        | some downloaded =>
          cases last : dump.coordinator.stored with
          | none => exact .inr rfl
          | some stored => exact absurd last (missing _ _ first)
    · cases step
  | signalling call =>
    simp only [phase] at step
    obtain ⟨rfl, pool, progress, advanced, rfl⟩ := coordinates_of_callStep isOpen step ran
    rcases progress with next | (cause | answer)
    · exact .signalling phase advanced
    · exact .signalFailed phase advanced
    · exact .signalled phase advanced
  | draining call =>
    simp only [phase] at step
    obtain ⟨rfl, pool, progress, advanced, rfl⟩ := coordinates_of_callStep isOpen step ran
    rcases progress with next | (cause | answer)
    · exact .draining phase advanced
    · exact .drainFailed phase advanced
    · exact .drained phase advanced
  | aborting cause =>
    simp only [phase] at step
    cases step
    cases ran
    exact .aborted phase
  | cancelling cause left =>
    cases left with
    | nil =>
      simp only [phase] at step
      cases step
      cases ran
      exact .allCancelled phase
    | cons stage left =>
      simp only [phase] at step
      cases step
      cases ran
      exact .cancelled phase
  | shuttingDown cause left =>
    cases left with
    | nil =>
      simp only [phase] at step
      cases step
      cases ran
      exact .gaveUp phase
    | cons stage left =>
      simp only [phase] at step
      cases step
  | closing =>
    simp only [phase] at step
    split at step
    · next downloaded stored writer first last =>
      cases step
      exact coordinates_of_close phase first last ran steady
    · next missing =>
      cases step
      cases ran
      refine .closedNothing phase ?_
      cases first : dump.coordinator.downloaded with
      | none => exact .inl rfl
      | some downloaded =>
        cases last : dump.coordinator.stored with
        | none => exact .inr rfl
        | some stored => exact absurd last (missing _ _ _ first)
  | returned result =>
    simp only [phase] at step
    cases step

end Dump

end TreeExport

import TreeExport.Proofs.Dump.Ends
import TreeExport.Proofs.Settings
import TreeExport.Proofs.Store.Opening

/-!
# Runs of a dump

A `World` is a dump together with the files that it works on.  `Job.Reaches` holds of a world that
some order of steps leads to, from the opening of the store on; it also tells the order, and which
worker took up which record.

What can be said of every step is said of `Dump.Moves`, whose rules are those of the stages and of
the coordinator.  A step is one of these (`Dump.moves_of_step`) as long as everybody holds the ends
of the queues that are his (`Dump.Ends`), and that stays so (`Job.Reaches.ends`).
-/

namespace TreeExport

variable {σ : Type} [RecordSource σ]

/-- A dump and the files that it works on. -/
structure World (σ : Type) where
  dump : Dump σ
  files : Files

/-- The record that an action takes up, with the worker that does. -/
def Dump.taking (dump : Dump σ) : Action → List (Nat × Record)
  | .worker id _ =>
    match dump.workers[id]?.map Worker.phase with
    | some (.processing (record :: _)) => [(id, record)]
    | _ => []
  | _ => []

/-- A step that an action makes at some time; where it is assured, every operation on files succeeds
that the step comes to. -/
inductive World.Step (job : Job σ) (assured : Prop) (world : World σ) (action : Action) :
    World σ → Prop
  | mk {program : Program (Dump σ)} (time : Moment)
      (possible : world.dump.step? job action = some program)
      (steady : assured → Program.Steady time program world.files) :
      World.Step job assured world action
        ⟨(program.run time world.files).1, (program.run time world.files).2⟩

/-- Some actions, one after the other, lead from the opening of the store in a file tree to a world;
`log` says which worker took up which record, in order. -/
inductive Job.Reaches (job : Job σ) (assured : Prop) (files₀ : Files) :
    List Action → List (Nat × Record) → World σ → Prop
  | opened {writer : Store.Writer} {files : Files} (time started : Moment)
      (opens : (Store.Writer.openAt job.directory).runOn time files₀ = (.ok writer, files)) :
      Job.Reaches job assured files₀ [] [] ⟨.start job writer started, files⟩
  | step {actions : List Action} {log : List (Nat × Record)} {world after : World σ}
      {action : Action} (before : Job.Reaches job assured files₀ actions log world)
      (step : world.Step job assured action after) :
      Job.Reaches job assured files₀ (actions ++ [action]) (log ++ world.dump.taking action) after

/-! ## Steps by their rules -/

namespace Dump

/-- What a step of a dump can do at a time, where it may be assured that operations on files
succeed. -/
inductive Moves (job : Job σ) (assured : Prop) (time : Moment) (dump : Dump σ) (files : Files) :
    Action → Dump σ → Files → Prop
  | download {side : Side} {after : Download σ} {raw : Queue RawItem}
      (step : Download.Moves job.request dump.download dump.shared.raw after raw) :
      Moves job assured time dump files (.download side)
        { dump with
          download := after
          shared := { dump.shared with raw := leaveRaw after.outcome?.isSome false raw } } files
  | worker {id : Nat} {side : Side} {worker after : Worker} {shared : Shared}
      (here : dump.workers[id]? = some worker)
      (step : Worker.Moves job.extraction worker dump.shared after shared) :
      Moves job assured time dump files (.worker id side)
        { dump with
          workers := dump.workers.set id after
          shared := { shared with raw := leaveRaw after.outcome?.isSome true shared.raw } } files
  | storer {side : Side} {after : Storer} {pool : Pool} {changed : Files}
      (step : Storer.Moves assured time dump.storer dump.shared.pool files after pool changed) :
      Moves job assured time dump files (.storer side)
        { dump with storer := after, shared := { dump.shared with pool := pool } } changed
  | join {stage : Stage} {after : Dump σ} (step : dump.Joins stage after) :
      Moves job assured time dump files (.join stage) after files
  | coordinate {after : Dump σ} {changed : Files}
      (step : dump.Coordinates assured time files after changed) :
      Moves job assured time dump files .coordinate after changed

variable {job : Job σ} {assured : Prop} {time : Moment} {dump after : Dump σ}
  {files changed : Files} {action : Action}

/-- A step of a dump is one by the rules. -/
theorem moves_of_step {program : Program (Dump σ)} (ends : dump.Ends job)
    (possible : dump.step? job action = some program)
    (ran : program.run time files = (after, changed))
    (steady : assured → Program.Steady time program files) :
    Moves job assured time dump files action after changed := by
  cases action with
  | download side =>
    obtain ⟨⟨download, raw⟩, step, rfl⟩ := Option.map_eq_some_iff.mp possible
    cases ran
    refine .download (Download.moves_of_step ?_ step)
    rw [ends.receivers]
    omega
  | worker id side =>
    obtain ⟨worker, here, stepped⟩ := Option.bind_eq_some_iff.mp possible
    obtain ⟨⟨worked, shared⟩, step, rfl⟩ := Option.map_eq_some_iff.mp stepped
    cases ran
    have runs : worker.outcome? = none := by
      unfold Worker.step? at step
      unfold Worker.outcome?
      split
      · next phase => simp only [phase] at step; cases step
      · next phase => simp only [phase] at step; cases step
      · rfl
    exact .worker here (Worker.moves_of_step (ends.isOpen here runs)
      (ends.shaped worker (List.mem_of_getElem? here)) step)
  | storer side =>
    obtain ⟨stepped, step, rfl⟩ := Option.map_eq_some_iff.mp possible
    rcases stored : stepped.run time files with ⟨⟨storer, pool⟩, left⟩
    simp only [bind, Program.run_andThen, stored] at ran
    cases ran
    exact .storer (Storer.moves_of_step ends.pool ends.storer step stored fun sure =>
      ((Program.steady_andThen _ _ _ _).mp (steady sure)).1)
  | join stage =>
    obtain ⟨joined, step, rfl⟩ := Option.map_eq_some_iff.mp possible
    cases ran
    exact .join (joins_of_join step)
  | coordinate => exact .coordinate (coordinates_of_coordinate ends.pool possible ran steady)

/-- What a stage gives up when it ends is what it held. -/
theorem Ends.move (ends : dump.Ends job)
    (step : Moves job assured time dump files action after changed) : after.Ends job := by
  have senders := ends.senders
  have receivers := ends.receivers
  cases step with
  | @download _ downloaded raw step =>
    obtain ⟨runs, -, rawSenders, rawReceivers, rawCapacity⟩ := step.ends
    have before : dump.download.ends = 1 := by rw [Download.ends, runs]; rfl
    refine { ends with senders := ?_, receivers := ?_, capacity := ?_ }
    · simp only [Download.ends]
      cases downloaded.outcome?.isSome with
      | true =>
        simp only [leaveRaw, if_true, Bool.false_eq_true, if_false, Queue.dropSender]
        omega
      | false =>
        simp only [leaveRaw, Bool.false_eq_true, if_false]
        omega
    · cases downloaded.outcome?.isSome with
      | true => exact rawReceivers.trans receivers
      | false => exact rawReceivers.trans receivers
    · exact (leaveRaw_capacity _ _ _).trans (rawCapacity.trans ends.capacity)
  | @worker id _ worker worked shared here step =>
    obtain ⟨runs, sameId, -, rawSenders, rawReceivers, rawCapacity⟩ := step.ends
    have before : worker.ends = 1 := by rw [Worker.ends, runs]; rfl
    have after : worked.ends = if worked.outcome?.isSome then 0 else 1 := rfl
    have exchanged := total_map_set (f := Worker.ends) worked here
    have shaped := ends.shaped worker (List.mem_of_getElem? here)
    refine
      { ends with
        ids := ?_, shaped := ?_, senders := ?_, receivers := ?_, capacity := ?_, pool := ?_ }
    · rw [← ends.ids]
      exact map_set here sameId
    · exact forall_mem_set (step.isShaped shaped) ends.shaped
    · cases isOver : worked.outcome?.isSome with
      | true =>
        rw [isOver] at after
        simp only [leaveRaw, if_true, Queue.dropSender, Queue.dropReceiver] at after ⊢
        omega
      | false =>
        rw [isOver] at after
        simp only [leaveRaw, Bool.false_eq_true, if_false] at after ⊢
        omega
    · cases isOver : worked.outcome?.isSome with
      | true =>
        rw [isOver] at after
        simp only [leaveRaw, if_true, Queue.dropSender, Queue.dropReceiver] at after ⊢
        omega
      | false =>
        rw [isOver] at after
        simp only [leaveRaw, Bool.false_eq_true, if_false] at after ⊢
        omega
    · exact (leaveRaw_capacity _ _ _).trans (rawCapacity.trans ends.capacity)
    · exact step.isOpen ends.pool
  | storer step =>
    exact
      { ends with
        storer := step.isShaped
        senders := senders
        pool := step.isOpen ends.pool }
  | join step => exact ends.join step
  | coordinate step => exact ends.coordinate step

end Dump

/-! ## Reachable worlds -/

variable {job : Job σ} {assured : Prop} {files₀ : Files} {actions : List Action}
  {log : List (Nat × Record)} {world : World σ}

/-- In every world that is reached everybody holds the ends that are his. -/
theorem Job.Reaches.ends (reached : job.Reaches assured files₀ actions log world) :
    world.dump.Ends job := by
  induction reached with
  | opened time started opens => exact Dump.ends_start job _ started
  | step before step ih =>
    cases step with
    | mk time possible steady =>
      exact ih.move (Dump.moves_of_step ih possible rfl steady)

/-- What holds of every opened world, and what every step keeps, holds of every world that is
reached. -/
@[elab_as_elim] theorem Job.Reaches.rec_moves
    {motive : ∀ {actions log world}, job.Reaches assured files₀ actions log world → Prop}
    (opened : ∀ {writer files} (time started : Moment)
      (opens : (Store.Writer.openAt job.directory).runOn time files₀ = (.ok writer, files)),
        motive (.opened time started opens))
    (move : ∀ {actions log world action after time}
      (before : job.Reaches assured files₀ actions log world)
      (step : world.Step job assured action after),
        Dump.Moves job assured time world.dump world.files action after.dump after.files →
          motive before → motive (before.step step))
    (reached : job.Reaches assured files₀ actions log world) : motive reached := by
  induction reached with
  | opened time started opens => exact opened time started opens
  | step before step ih =>
    have ends := before.ends
    cases step with
    | mk time possible steady =>
      exact move before (.mk time possible steady) (Dump.moves_of_step ends possible rfl steady) ih

end TreeExport

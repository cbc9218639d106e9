import Mathlib.Data.List.Perm.Subperm
import TreeExport.Proofs.Dump.Smooth
import TreeExport.Proofs.Statistics

/-!
# What the coordinator knows

As long as the coordinator is calm, the stages that it has struck off its list have ended well, and
what it has gathered is what they have counted (`Dump.Knows`).
-/

namespace TreeExport

variable {σ : Type}

/-- All that the coordinator has gathered. -/
def Coordinator.gathered (coordinator : Coordinator) :
    List Stage × Nat × Nat × Statistics × Option Nat × Option (Nat × Store.Writer) :=
  (coordinator.outstanding, coordinator.workersDone, coordinator.extracted,
    coordinator.statistics, coordinator.downloaded, coordinator.stored)

/-- Coming back from the signal, the coordinator has gathered what it had: it only publishes. -/
theorem Coordinator.gathered_signalled (coordinator : Coordinator) :
    coordinator.signalled.gathered = coordinator.gathered := by
  simp only [signalled, gathered]

namespace Dump

/-- The coordinator has seen a stage end. -/
def HasSeen (dump : Dump σ) (stage : Stage) : Prop :=
  stage ∉ dump.coordinator.outstanding

/-- The coordinator has seen exactly the workers `done` end, and has added up what they counted. -/
structure HasJoined (dump : Dump σ) (done : List Worker) : Prop where
  nodup : done.Nodup
  seen : ∀ worker ∈ done, dump.HasSeen (.transform worker.id)
  mem : ∀ worker ∈ done, worker ∈ dump.workers
  finished : ∀ worker ∈ done, worker.phase = .finished
  all : ∀ worker ∈ dump.workers, dump.HasSeen (.transform worker.id) → worker ∈ done
  count : dump.coordinator.workersDone = done.length
  extracted : dump.coordinator.extracted = total (done.map (·.statistics.accepted))
  gathered : Statistics.Gathers (done.map Worker.statistics) dump.coordinator.statistics

/-- The coordinator is at what comes next. -/
def IsAtNext (dump : Dump σ) : Prop :=
  match dump.coordinator.phase with
  | .signalling _ => dump.coordinator.workersDone = dump.workers.length
  | .draining _ => dump.HasSeen .sortAndStore
  | .closing => dump.coordinator.outstanding = []
  | .returned (.ok _) => dump.coordinator.outstanding = []
  | _ => True

/-- What the coordinator has noted of the stages that it has seen end is so. -/
structure Knows (dump : Dump σ) : Prop where
  download : dump.HasSeen .download → dump.download.phase = .finished
  storer : dump.HasSeen .sortAndStore → dump.storer.phase = .finished
  downloaded : dump.HasSeen .download →
    dump.coordinator.downloaded = some dump.download.documents
  stored : dump.HasSeen .sortAndStore →
    dump.coordinator.stored = some (dump.storer.entries, dump.storer.writer)
  workers : ∃ done, dump.HasJoined done
  next : dump.IsAtNext

variable {dump after : Dump σ} {stage other : Stage}

theorem HasJoined.processed {done : List Worker} (joined : dump.HasJoined done) :
    dump.coordinator.statistics.processed = total (done.map (·.statistics.processed)) := by
  have sum := @Statistics.Gathers.sum _ _ Statistics.processed rfl (fun _ _ _ => rfl) joined.gathered
  rwa [List.map_map] at sum

/-- Once it has seen all workers end, they have all ended. -/
theorem Knows.finished (knows : dump.Knows)
    (all : dump.coordinator.workersDone = dump.workers.length) :
    ∀ worker ∈ dump.workers, worker.phase = .finished := by
  obtain ⟨done, joined⟩ := knows.workers
  have within : List.Subperm done dump.workers := joined.nodup.subperm joined.mem
  have perm := within.perm_of_length_le (Nat.le_of_eq (all.symm.trans joined.count))
  intro worker member
  exact joined.finished worker (perm.mem_iff.mpr member)

/-- As long as it has not seen some worker end, it has not counted all. -/
theorem Knows.lt_of_unseen (knows : dump.Knows) {worker : Worker} (member : worker ∈ dump.workers)
    (unseen : ¬ dump.HasSeen (.transform worker.id)) :
    dump.coordinator.workersDone < dump.workers.length := by
  obtain ⟨done, joined⟩ := knows.workers
  have fresh : worker ∉ done := fun again => unseen (joined.seen worker again)
  have within : List.Subperm (worker :: done) dump.workers :=
    (List.nodup_cons.mpr ⟨fresh, joined.nodup⟩).subperm
      (List.forall_mem_cons.mpr ⟨member, joined.mem⟩)
  rw [joined.count]
  exact within.length_le

/-- Once all workers have been seen to end, all have been counted. -/
theorem Knows.count_eq (knows : dump.Knows) (nodup : dump.workers.Nodup)
    (seen : ∀ worker ∈ dump.workers, dump.HasSeen (.transform worker.id)) :
    dump.coordinator.workersDone = dump.workers.length := by
  obtain ⟨done, joined⟩ := knows.workers
  have within : List.Subperm done dump.workers := joined.nodup.subperm joined.mem
  have around : List.Subperm dump.workers done :=
    nodup.subperm fun worker member => joined.all worker member (seen worker member)
  rw [joined.count]
  exact Nat.le_antisymm within.length_le around.length_le

/-! ## Seeing a stage end -/

theorem hasSeen_strike
    (struck : after.coordinator.outstanding = (dump.coordinator.strike stage).outstanding) :
    after.HasSeen other ↔ dump.HasSeen other ∨ other = stage := by
  simp only [HasSeen, struck, Coordinator.strike, List.mem_filter, bne_iff_ne, ne_eq, not_and,
    not_not]
  constructor
  · intro same
    by_cases here : other ∈ dump.coordinator.outstanding
    · exact .inr (same here)
    · exact .inl here
  · rintro (gone | same) here
    · exact absurd here gone
    · exact same

theorem HasJoined.of_same {done : List Worker} (joined : dump.HasJoined done)
    (workers : after.workers = dump.workers)
    (seen : ∀ id, after.HasSeen (.transform id) ↔ dump.HasSeen (.transform id))
    (count : after.coordinator.workersDone = dump.coordinator.workersDone)
    (extracted : after.coordinator.extracted = dump.coordinator.extracted)
    (statistics : after.coordinator.statistics = dump.coordinator.statistics) :
    after.HasJoined done := by
  refine ⟨joined.nodup, ?_, ?_, joined.finished, ?_, ?_, ?_, ?_⟩
  · exact fun worker member => (seen _).mpr (joined.seen worker member)
  · rw [workers]
    exact joined.mem
  · rw [workers]
    exact fun worker member here => joined.all worker member ((seen _).mp here)
  · rw [count]
    exact joined.count
  · rw [extracted]
    exact joined.extracted
  · rw [statistics]
    exact joined.gathered

/-- The coordinator sees one more worker end. -/
theorem HasJoined.add {job : Job σ} {done : List Worker} {id : Nat} {worker : Worker}
    (joined : dump.HasJoined done) (ends : dump.Ends job)
    (here : .transform id ∈ dump.coordinator.outstanding) (there : dump.workers[id]? = some worker)
    (isOver : worker.phase = .finished) (phase : Coordinator.Phase) (state : RunState) :
    (dump.withCoordinator
      { (dump.coordinator.strike (.transform id)).noteWorker worker with
        state := state, phase := phase }).HasJoined (worker :: done) := by
  have same := ends.id_eq there
  have seen : ∀ other, (dump.withCoordinator
      { (dump.coordinator.strike (.transform id)).noteWorker worker with
        state := state, phase := phase }).HasSeen other ↔
          dump.HasSeen other ∨ other = .transform id := fun other => hasSeen_strike rfl
  refine ⟨?_, ?_, ?_, ?_, ?_, ?_, ?_, ?_⟩
  · refine List.nodup_cons.mpr ⟨fun again => ?_, joined.nodup⟩
    exact joined.seen worker again (same ▸ here)
  · refine List.forall_mem_cons.mpr ⟨(seen _).mpr (.inr (by rw [same])), fun other member => ?_⟩
    exact (seen _).mpr (.inl (joined.seen other member))
  · exact List.forall_mem_cons.mpr ⟨List.mem_of_getElem? there, joined.mem⟩
  · exact List.forall_mem_cons.mpr ⟨isOver, joined.finished⟩
  · intro other member seenNow
    rcases (seen _).mp seenNow with before | now
    · exact List.mem_cons_of_mem _ (joined.all other member before)
    · obtain ⟨index, found⟩ := List.mem_iff_getElem?.mp member
      have before : dump.workers[index]? = some other := found
      rw [← ends.id_eq before, Stage.transform.inj now, there] at before
      cases before
      exact List.mem_cons_self
  · exact congrArg (· + 1) joined.count
  · have extracted := joined.extracted
    simp only [withCoordinator_coordinator, Coordinator.noteWorker, Coordinator.tell,
      Coordinator.strike, List.map_cons, total_cons]
    omega
  · exact joined.gathered.merge worker.statistics

theorem Knows.join {job : Job σ} (knows : dump.Knows) (ends : dump.Ends job)
    (calm : after.coordinator.IsCalm) (step : dump.Joins stage after) : after.Knows := by
  obtain ⟨done, joined⟩ := knows.workers
  cases step with
  | download phase here isOver =>
    have seen (other : Stage) : (dump.withCoordinator
        ((dump.coordinator.strike .download).joinDownload dump.download)).HasSeen other ↔
          dump.HasSeen other ∨ other = .download := hasSeen_strike rfl
    refine ⟨fun _ => isOver, fun now => ?_, fun _ => rfl, fun now => ?_, ⟨done, ?_⟩, ?_⟩
    · exact knows.storer (((seen _).mp now).resolve_right (by rintro ⟨⟩))
    · exact knows.stored (((seen _).mp now).resolve_right (by rintro ⟨⟩))
    · exact joined.of_same rfl (fun id => (seen _).trans (or_iff_left (by rintro ⟨⟩))) rfl rfl rfl
    · simp only [IsAtNext, withCoordinator_coordinator, Coordinator.joinDownload, Coordinator.tell,
        Coordinator.strike, phase]
  | @worker id worker phase here there isOver more =>
    have added := joined.add ends here there isOver (dump.coordinator.strike (.transform id)).phase
      (dump.coordinator.strike (.transform id)).state
    have seen (other : Stage) : (dump.withCoordinator
        ((dump.coordinator.strike (.transform id)).noteWorker worker)).HasSeen other ↔
          dump.HasSeen other ∨ other = .transform id := hasSeen_strike rfl
    refine ⟨fun now => ?_, fun now => ?_, fun now => ?_, fun now => ?_, ⟨worker :: done, added⟩, ?_⟩
    · exact knows.download (((seen _).mp now).resolve_right (by rintro ⟨⟩))
    · exact knows.storer (((seen _).mp now).resolve_right (by rintro ⟨⟩))
    · exact knows.downloaded (((seen _).mp now).resolve_right (by rintro ⟨⟩))
    · exact knows.stored (((seen _).mp now).resolve_right (by rintro ⟨⟩))
    · simp only [IsAtNext, withCoordinator_coordinator, Coordinator.noteWorker, Coordinator.tell,
        Coordinator.strike, phase]
  | @lastWorker id worker phase here there isOver last =>
    have added := joined.add ends here there isOver (.signalling .signalEnd) .draining
    have seen (other : Stage) : (dump.withCoordinator
        { (dump.coordinator.strike (.transform id)).noteWorker worker with
          state := .draining, phase := .signalling .signalEnd }).HasSeen other ↔
          dump.HasSeen other ∨ other = .transform id := hasSeen_strike rfl
    refine ⟨fun now => ?_, fun now => ?_, fun now => ?_, fun now => ?_, ⟨worker :: done, added⟩, ?_⟩
    · exact knows.download (((seen _).mp now).resolve_right (by rintro ⟨⟩))
    · exact knows.storer (((seen _).mp now).resolve_right (by rintro ⟨⟩))
    · exact knows.downloaded (((seen _).mp now).resolve_right (by rintro ⟨⟩))
    · exact knows.stored (((seen _).mp now).resolve_right (by rintro ⟨⟩))
    · exact last
  | storer phase here isOver =>
    have seen (other : Stage) : (dump.withCoordinator
        ((dump.coordinator.strike .sortAndStore).joinStorer dump.storer)).HasSeen other ↔
          dump.HasSeen other ∨ other = .sortAndStore := hasSeen_strike rfl
    refine ⟨fun now => ?_, fun _ => isOver, fun now => ?_, fun _ => rfl, ⟨done, ?_⟩, ?_⟩
    · exact knows.download (((seen _).mp now).resolve_right (by rintro ⟨⟩))
    · exact knows.downloaded (((seen _).mp now).resolve_right (by rintro ⟨⟩))
    · exact joined.of_same rfl (fun id => (seen _).trans (or_iff_left (by rintro ⟨⟩))) rfl rfl rfl
    · exact (seen _).mpr (.inr rfl)
  | badly => exact calm.elim
  | late => exact calm.elim

/-! ## Acting by itself -/

variable {job : Job σ} {assured : Prop} {time : Moment} {files changed : Files} {action : Action}

/-- The coordinator gathers when it joins a stage, and never when it acts by itself. -/
theorem Coordinates.gathered_eq (step : dump.Coordinates assured time files after changed) :
    after.coordinator.gathered = dump.coordinator.gathered := by
  cases step with
  | signalled => exact Coordinator.gathered_signalled _
  | _ => rfl

theorem Coordinates.outstanding_eq (step : dump.Coordinates assured time files after changed) :
    after.coordinator.outstanding = dump.coordinator.outstanding :=
  congrArg Prod.fst step.gathered_eq

theorem Coordinates.workersDone_eq (step : dump.Coordinates assured time files after changed) :
    after.coordinator.workersDone = dump.coordinator.workersDone :=
  congrArg (·.2.1) step.gathered_eq

theorem Coordinates.hasSeen_iff (step : dump.Coordinates assured time files after changed) :
    after.HasSeen stage ↔ dump.HasSeen stage := by
  simp only [HasSeen, step.outstanding_eq]

/-- Gathering nothing new from stages that are as they were, the coordinator knows what it knew. -/
theorem Knows.of_same (knows : dump.Knows)
    (stages : (after.download, after.workers, after.storer) =
      (dump.download, dump.workers, dump.storer))
    (gathered : after.coordinator.gathered = dump.coordinator.gathered)
    (next : after.IsAtNext) : after.Knows := by
  obtain ⟨done, joined⟩ := knows.workers
  simp only [Coordinator.gathered, Prod.mk.injEq] at stages gathered
  obtain ⟨download, workers, storer⟩ := stages
  obtain ⟨outstanding, count, extracted, statistics, downloaded, stored⟩ := gathered
  have seen (stage : Stage) : after.HasSeen stage ↔ dump.HasSeen stage := by
    simp only [HasSeen, outstanding]
  refine ⟨fun now => ?_, fun now => ?_, fun now => ?_, fun now => ?_, ⟨done, ?_⟩, next⟩
  · rw [download]
    exact knows.download ((seen _).mp now)
  · rw [storer]
    exact knows.storer ((seen _).mp now)
  · rw [download, downloaded]
    exact knows.downloaded ((seen _).mp now)
  · rw [storer, stored]
    exact knows.stored ((seen _).mp now)
  · exact joined.of_same workers (fun id => seen _) count extracted statistics

theorem Knows.coordinate (knows : dump.Knows) (calm : after.coordinator.IsCalm)
    (step : dump.Coordinates assured time files after changed) : after.Knows := by
  have next := knows.next
  have gathered := step.gathered_eq
  cases step with
  | started phase => exact knows.of_same rfl gathered trivial
  | signalling phase advance =>
    simp only [IsAtNext, phase] at next
    exact knows.of_same rfl gathered next
  | draining phase advance =>
    simp only [IsAtNext, phase] at next
    exact knows.of_same rfl gathered next
  | allSeen phase isOver => exact knows.of_same rfl gathered isOver
  | signalled => exact knows.of_same rfl gathered trivial
  | drained => exact knows.of_same rfl gathered trivial
  | closed phase =>
    simp only [IsAtNext, phase] at next
    exact knows.of_same rfl gathered next
  | _ => exact calm.elim

/-! ## All steps -/

variable [RecordSource σ]

theorem Moves.outstanding_subset
    (step : Moves job assured time dump files action after changed) :
    after.coordinator.outstanding ⊆ dump.coordinator.outstanding := by
  intro other member
  cases step with
  | join step =>
    cases step with
    | late => exact member
    | _ => exact List.mem_of_mem_filter member
  | coordinate step => exact step.outstanding_eq ▸ member
  | _ => exact member

theorem Knows.move (knows : dump.Knows) (ends : dump.Ends job) (calm : after.coordinator.IsCalm)
    (step : Moves job assured time dump files action after changed) : after.Knows := by
  cases step with
  | download step =>
    have unseen : ¬ dump.HasSeen .download := fun now =>
      step.phase_ne_finished (knows.download now)
    obtain ⟨done, joined⟩ := knows.workers
    exact ⟨fun now => absurd now unseen, knows.storer, fun now => absurd now unseen, knows.stored,
      ⟨done, joined.of_same rfl (fun id => Iff.rfl) rfl rfl rfl⟩, knows.next⟩
  | @worker id _ worker worked shared here step =>
    obtain ⟨-, sameId, -⟩ := step.ends
    obtain ⟨done, joined⟩ := knows.workers
    have apart : ∀ other, other.phase = .finished → other ≠ worker := by
      rintro other isOver rfl
      exact step.phase_ne_finished isOver
    refine ⟨knows.download, knows.storer, knows.downloaded, knows.stored, ⟨done, ?_⟩, ?_⟩
    · refine
        { joined with
          mem := fun other member => ?_
          all := fun other member now => ?_ }
      · exact mem_set_of_ne worked here (joined.mem other member)
          (apart other (joined.finished other member))
      · rcases List.mem_or_eq_of_mem_set member with old | rfl
        · exact joined.all other old now
        · rw [sameId] at now
          have before := joined.all worker (List.mem_of_getElem? here) now
          exact absurd rfl (apart worker (joined.finished worker before))
    · have next := knows.next
      have same : (dump.workers.set id worked).length = dump.workers.length := List.length_set
      unfold IsAtNext at next ⊢
      rw [same]
      exact next
  | storer step =>
    have unseen : ¬ dump.HasSeen .sortAndStore := fun now =>
      step.phase_ne_finished (knows.storer now)
    obtain ⟨done, joined⟩ := knows.workers
    exact ⟨knows.download, fun now => absurd now unseen, knows.downloaded,
      fun now => absurd now unseen, ⟨done, joined.of_same rfl (fun id => Iff.rfl) rfl rfl rfl⟩,
      knows.next⟩
  | join step => exact knows.join ends calm step
  | coordinate step => exact knows.coordinate calm step

omit [RecordSource σ] in
theorem knows_start (job : Job σ) (writer : Store.Writer) (time : Moment) :
    (start job writer time).Knows := by
  have unseen : ∀ stage ∈ job.stages, ¬ (start job writer time).HasSeen stage :=
    fun stage member gone => gone member
  have download := unseen .download List.mem_cons_self
  have storer := unseen .sortAndStore
    (List.mem_cons_of_mem _ (List.mem_append_right _ List.mem_cons_self))
  refine ⟨fun now => absurd now download, fun now => absurd now storer,
    fun now => absurd now download, fun now => absurd now storer, ⟨[], ?_⟩, trivial⟩
  have nobody {holds : Worker → Prop} : ∀ worker ∈ ([] : List Worker), holds worker :=
    fun _ none => absurd none List.not_mem_nil
  refine ⟨List.nodup_nil, nobody, nobody, nobody, fun worker member now => ?_, rfl, rfl, .nil⟩
  obtain ⟨id, below, rfl⟩ := List.mem_map.mp member
  exact absurd now (unseen _ (List.mem_cons_of_mem _
    (List.mem_append_left _ (List.mem_map_of_mem below))))

end Dump

variable [RecordSource σ] {job : Job σ} {assured : Prop} {files₀ : Files} {actions : List Action}
  {log : List (Nat × Record)} {world : World σ}

/-- While the coordinator is calm, what it has noted is so. -/
theorem Job.Reaches.knows (reached : job.Reaches assured files₀ actions log world)
    (calm : world.dump.coordinator.IsCalm) : world.dump.Knows := by
  induction reached using Job.Reaches.rec_moves with
  | opened time started opens => exact Dump.knows_start job _ started
  | move before _ step ih => exact (ih (step.isCalm_before calm)).move before.ends calm step

/-- The coordinator never waits for a stage that the dump does not have. -/
theorem Job.Reaches.outstanding_subset (reached : job.Reaches assured files₀ actions log world) :
    world.dump.coordinator.outstanding ⊆ job.stages := by
  induction reached using Job.Reaches.rec_moves with
  | opened time started opens => exact fun stage member => member
  | move before _ step ih => exact fun stage member => ih (step.outstanding_subset member)

end TreeExport

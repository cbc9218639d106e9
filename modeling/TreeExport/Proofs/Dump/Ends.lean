import Mathlib.Data.List.Nodup
import TreeExport.Proofs.Dump.Coordination

/-!
# The ends of the queues

Download, workers and coordinator hold ends of the raw queue and give them up when they are over,
and each party is at an operation on the pool that belongs to it.  `Dump.Ends` says so of a dump;
what the coordinator does keeps it so.
-/

namespace TreeExport

variable {σ : Type}

/-- The number of ends of the raw queue for sending that the download holds. -/
def Download.ends (download : Download σ) : Nat :=
  if download.outcome?.isSome then 0 else 1

/-- The number of ends of either kind that a worker holds. -/
def Worker.ends (worker : Worker) : Nat :=
  if worker.outcome?.isSome then 0 else 1

namespace Coordinator

/-- The number of ends of either kind that the coordinator holds and will give up. -/
def ends (coordinator : Coordinator) : Nat :=
  match coordinator.phase with
  | .starting => 1
  | _ => 0

/-- The operation that the coordinator is at is one that belongs there. -/
def IsShaped (coordinator : Coordinator) : Prop :=
  match coordinator.phase with
  | .signalling call => call.kind = .signal
  | .draining call => call.kind = .drain
  | _ => True

end Coordinator

namespace Dump

/-- Everybody is at an operation that belongs there and holds the ends of the queues that are his;
one end for receiving from the raw queue is never given up. -/
structure Ends (job : Job σ) (dump : Dump σ) : Prop where
  ids : dump.workers.map Worker.id = List.range job.settings.workers
  shaped : ∀ worker ∈ dump.workers, worker.IsShaped
  storer : dump.storer.IsShaped
  coordinator : dump.coordinator.IsShaped
  senders : dump.shared.raw.senders =
    dump.coordinator.ends + dump.download.ends + total (dump.workers.map Worker.ends)
  receivers : dump.shared.raw.receivers =
    1 + dump.coordinator.ends + total (dump.workers.map Worker.ends)
  capacity : dump.shared.raw.capacity = job.settings.queueCapacity
  pool : dump.shared.pool.IsOpen

variable {job : Job σ} {assured : Prop} {time : Moment} {dump after : Dump σ}
  {files changed : Files}

theorem Ends.id_eq (ends : dump.Ends job) {id : Nat} {worker : Worker}
    (here : dump.workers[id]? = some worker) : worker.id = id := by
  have there : (dump.workers.map Worker.id)[id]? = some worker.id := by
    rw [List.getElem?_map, here]
    rfl
  rw [ends.ids, List.getElem?_range (by
    rw [← List.length_range (n := job.settings.workers), ← ends.ids, List.length_map]
    exact (List.getElem?_eq_some_iff.mp here).1)] at there
  exact (Option.some.inj there).symm

theorem Ends.length_eq (ends : dump.Ends job) : dump.workers.length = job.settings.workers := by
  rw [← List.length_map Worker.id, ends.ids, List.length_range]

theorem Ends.nodup (ends : dump.Ends job) : dump.workers.Nodup := by
  refine List.Nodup.of_map Worker.id ?_
  rw [ends.ids]
  exact List.nodup_range

theorem Ends.isOpen (ends : dump.Ends job) {id : Nat} {worker : Worker}
    (here : dump.workers[id]? = some worker) (runs : worker.outcome? = none) :
    dump.shared.IsOpen := by
  have mine : worker.ends ≤ total (dump.workers.map Worker.ends) :=
    le_total_of_mem (List.mem_of_getElem? here)
  have one : worker.ends = 1 := by rw [Worker.ends, runs]; rfl
  refine ⟨?_, ?_, ends.pool⟩
  · rw [ends.receivers]
    omega
  · rw [ends.senders]
    omega

/-- At the start all workers are alike. -/
theorem forall_workers_start {holds : Worker → Prop} (job : Job σ) (writer : Store.Writer)
    (time : Moment) (fresh : ∀ id, holds { id := id }) :
    ∀ worker ∈ (start job writer time).workers, holds worker := by
  intro worker member
  obtain ⟨id, -, rfl⟩ := List.mem_map.mp member
  exact fresh id

theorem total_workers_start {f : Worker → Nat} (job : Job σ) (writer : Store.Writer)
    (time : Moment) (none : ∀ id, f { id := id } = 0) :
    total ((start job writer time).workers.map f) = 0 :=
  total_eq_zero (forall_workers_start job writer time none)

theorem ends_start (job : Job σ) (writer : Store.Writer) (time : Moment) :
    (start job writer time).Ends job := by
  have alone : (start job writer time).workers.map Worker.ends =
      (List.range job.settings.workers).map fun _ => 1 := List.map_map
  have count : total ((List.range job.settings.workers).map fun _ => 1) = job.settings.workers := by
    rw [total_map_const, List.length_range, Nat.one_mul]
  refine ⟨?_, ?_, rfl, trivial, ?_, ?_, rfl, ?_⟩
  · exact (List.map_map).trans (List.map_id _)
  · exact forall_workers_start job writer time fun _ => trivial
  · rw [alone, count]
    exact (Nat.add_comm _ _)
  · rw [alone, count]
    exact Nat.add_comm _ _
  · exact ⟨Nat.one_ne_zero, Nat.one_ne_zero, Nat.one_ne_zero, Nat.one_ne_zero⟩

/-! ## What the coordinator does keeps them -/

theorem Ends.withCoordinator {coordinator : Coordinator} (ends : dump.Ends job)
    (shaped : coordinator.IsShaped) (same : coordinator.ends = dump.coordinator.ends) :
    (dump.withCoordinator coordinator).Ends job := by
  refine { ends with coordinator := shaped, senders := ?_, receivers := ?_ }
  · rw [show (dump.withCoordinator coordinator).coordinator.ends = dump.coordinator.ends from same]
    exact ends.senders
  · rw [show (dump.withCoordinator coordinator).coordinator.ends = dump.coordinator.ends from same]
    exact ends.receivers

theorem Ends.withPool {pool : Pool} (ends : dump.Ends job) (isOpen : pool.IsOpen) :
    (dump.withPool pool).Ends job :=
  { ends with senders := ends.senders, pool := isOpen }

theorem Ends.join {stage : Stage} (ends : dump.Ends job) (step : dump.Joins stage after) :
    after.Ends job := by
  cases step with
  | download phase here isOver =>
    refine ends.withCoordinator ?_ ?_
    · simp only [Coordinator.IsShaped, Coordinator.joinDownload, Coordinator.tell,
        Coordinator.strike, phase]
    · simp only [Coordinator.ends, Coordinator.joinDownload, Coordinator.tell,
        Coordinator.strike, phase]
  | worker phase here there isOver more =>
    refine ends.withCoordinator ?_ ?_
    · simp only [Coordinator.IsShaped, Coordinator.noteWorker, Coordinator.tell,
        Coordinator.strike, phase]
    · simp only [Coordinator.ends, Coordinator.noteWorker, Coordinator.tell, Coordinator.strike,
        phase]
  | lastWorker phase here there isOver last =>
    refine ends.withCoordinator rfl ?_
    simp only [Coordinator.ends, phase]
  | storer phase here isOver =>
    refine ends.withCoordinator rfl ?_
    simp only [Coordinator.ends, Coordinator.joinStorer, phase]
  | badly phase here outcome =>
    refine ends.withCoordinator trivial ?_
    simp only [Coordinator.ends, Coordinator.goTo, phase]
  | late phase here outcome =>
    refine ends.withCoordinator trivial ?_
    simp only [Coordinator.ends, Coordinator.goTo, phase]

theorem Ends.cancel (ends : dump.Ends job) (stage : Stage) : (dump.cancel stage).Ends job := by
  have ids := ends.ids
  have senders := ends.senders
  have receivers := ends.receivers
  rw [← map_cancel_workers (fun _ => rfl) dump stage] at ids senders receivers
  have shaped := forall_mem_cancel_workers (fun _ shaped => shaped) ends.shaped stage
  cases stage with
  | download => exact { ends with senders := senders }
  | transform id => exact { ends with ids, shaped, senders, receivers }
  | sortAndStore => exact { ends with storer := ends.storer }

theorem Ends.coordinate (ends : dump.Ends job)
    (step : dump.Coordinates assured time files after changed) : after.Ends job := by
  cases step with
  | started phase =>
    refine { ends with coordinator := trivial, senders := ?_, receivers := ?_ }
    · have senders := ends.senders
      simp only [Coordinator.ends, phase] at senders
      simp only [leaveRaw, if_true, Queue.dropSender, Queue.dropReceiver, Coordinator.ends,
        Coordinator.tell]
      omega
    · have receivers := ends.receivers
      simp only [Coordinator.ends, phase] at receivers
      simp only [leaveRaw, if_true, Queue.dropSender, Queue.dropReceiver, Coordinator.ends,
        Coordinator.tell]
      omega
  | signalling phase advance =>
    have shaped := ends.coordinator
    simp only [Coordinator.IsShaped, phase] at shaped
    refine (ends.withPool (advance.isOpen ends.pool)).withCoordinator ?_ ?_
    · exact advance.kind_eq.trans shaped
    · simp only [Coordinator.ends, Coordinator.goTo, withPool_coordinator, phase]
  | draining phase advance =>
    have shaped := ends.coordinator
    simp only [Coordinator.IsShaped, phase] at shaped
    refine (ends.withPool (advance.isOpen ends.pool)).withCoordinator ?_ ?_
    · exact advance.kind_eq.trans shaped
    · simp only [Coordinator.ends, Coordinator.goTo, withPool_coordinator, phase]
  | signalled phase advance =>
    refine (ends.withPool (advance.isOpen ends.pool)).withCoordinator trivial ?_
    simp only [Coordinator.ends, Coordinator.signalled, withPool_coordinator, phase]
  | signalFailed phase advance =>
    refine (ends.withPool (advance.isOpen ends.pool)).withCoordinator trivial ?_
    simp only [Coordinator.ends, Coordinator.goTo, withPool_coordinator, phase]
  | drained phase advance =>
    refine (ends.withPool (advance.isOpen ends.pool)).withCoordinator trivial ?_
    simp only [Coordinator.ends, Coordinator.drained, Coordinator.goTo, Coordinator.tell,
      withPool_coordinator, phase]
  | drainFailed phase advance =>
    refine (ends.withPool (advance.isOpen ends.pool)).withCoordinator trivial ?_
    simp only [Coordinator.ends, Coordinator.goTo, withPool_coordinator, phase]
  | cancelled phase =>
    refine (ends.cancel _).withCoordinator trivial ?_
    rw [cancel_coordinator]
    simp only [Coordinator.ends, Coordinator.goTo, phase]
  | _ =>
    refine ends.withCoordinator trivial ?_
    simp only [Coordinator.ends, Coordinator.goTo, Coordinator.tell, Coordinator.succeed,
      Coordinator.giveUp, ‹dump.coordinator.phase = _›]

theorem leaveRaw_items (ended receives : Bool) (raw : Queue RawItem) :
    (leaveRaw ended receives raw).items = raw.items := by
  cases ended <;> cases receives <;> rfl

theorem leaveRaw_capacity (ended receives : Bool) (raw : Queue RawItem) :
    (leaveRaw ended receives raw).capacity = raw.capacity := by
  cases ended <;> cases receives <;> rfl

end Dump

end TreeExport

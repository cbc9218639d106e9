import TreeExport.Proofs.Dump.Relay
import TreeExport.Proofs.Dump.Stock

/-!
# Nobody waits for ever

A stage that runs either has a step that it can take or waits for something that is not there
(`Dump.worker_waits`, `Dump.storer_waits`).  As long as no stage fails, the parties never all wait
for each other: somebody can take a step until the coordinator returns
(`Job.Reaches.exists_step`).
-/

namespace TreeExport

variable {σ : Type} [RecordSource σ]

/-! ## One stage -/

theorem Download.step?_isSome {request : BatchRequest} {download : Download σ}
    {raw : Queue RawItem} (runs : download.outcome? = none) (heard : raw.receivers ≠ 0)
    (room : raw.items.length < raw.capacity) : (download.step? request .queue raw).isSome := by
  unfold step?
  cases phase : download.phase with
  | checking => rfl
  | asking => rfl
  | sending batch attempt =>
    rw [Option.isSome_map]
    cases attempt with
    | check => exact Queue.send_check _ _ _
    | wait => exact Queue.send_wait heard room
  | ending attempt =>
    rw [Option.isSome_map]
    cases attempt with
    | check => exact Queue.send_check _ _ _
    | wait => exact Queue.send_wait heard room
  | finished =>
    simp only [outcome?, phase] at runs
    cases runs
  | failed cause =>
    simp only [outcome?, phase] at runs
    cases runs

omit [RecordSource σ] in
theorem Worker.step?_isSome {extraction : Extraction} {worker : Worker} {shared : Shared}
    (runs : worker.outcome? = none) (isOpen : shared.IsOpen) (shaped : worker.IsShaped)
    (receives : worker.phase = .receiving .wait → shared.raw.items ≠ [])
    (forwards : worker.phase = .forwarding .wait →
      shared.raw.items.length < shared.raw.capacity)
    (acquires : ∀ path payload rest,
      worker.phase = .acquiring (.takeEmpty .wait) path payload rest →
        shared.pool.empties.items ≠ [])
    (room : 0 < worker.held →
      shared.pool.empties.items.length < shared.pool.empties.capacity ∧
        shared.pool.fulls.items.length < shared.pool.fulls.capacity) :
    (worker.step? extraction .queue shared).isSome := by
  unfold step?
  cases phase : worker.phase with
  | receiving attempt =>
    rw [Option.isSome_map]
    cases attempt with
    | check => exact Queue.receive_check _ _
    | wait => exact Queue.receive_wait (receives phase)
  | processing left => cases left <;> rfl
  | placing path payload rest => rfl
  | acquiring call path payload rest =>
    simp only [IsShaped, phase] at shaped
    simp only [held, phase] at room
    simp only [callStep, Option.isSome_map]
    refine Pool.Call.advance_isSome isOpen.pool ?_ ?_ fun one => room (by omega)
    · rintro rfl
      exact acquires path payload rest phase
    · rintro rfl
      cases shaped.1
  | submitting call path payload rest =>
    simp only [IsShaped, phase] at shaped
    simp only [held, phase] at room
    simp only [callStep, Option.isSome_map]
    refine Pool.Call.advance_isSome isOpen.pool ?_ ?_ fun one => room (by omega)
    · rintro rfl
      cases shaped.1
    · rintro rfl
      cases shaped.1
  | forwarding attempt =>
    rw [Option.isSome_map]
    cases attempt with
    | check => exact Queue.send_check _ _ _
    | wait => exact Queue.send_wait isOpen.heard (forwards phase)
  | flushing => rfl
  | givingUp call =>
    simp only [IsShaped, phase] at shaped
    simp only [held, phase] at room
    simp only [callStep, Option.isSome_map]
    refine Pool.Call.advance_isSome isOpen.pool ?_ ?_ fun one => room (by omega)
    · rintro rfl
      rcases shaped.1 with kind | kind <;> cases kind
    · rintro rfl
      rcases shaped.1 with kind | kind <;> cases kind
  | finished =>
    simp only [outcome?, phase] at runs
    cases runs
  | failed cause =>
    simp only [outcome?, phase] at runs
    cases runs

omit [RecordSource σ] in
theorem Storer.step?_isSome {storer : Storer} {pool : Pool} (runs : storer.outcome? = none)
    (isOpen : pool.IsOpen) (shaped : storer.IsShaped)
    (fetches : storer.phase = .acquiring (.takeFull .wait) → pool.fulls.items ≠ [])
    (room : 0 < storer.held → pool.empties.items.length < pool.empties.capacity ∧
      pool.fulls.items.length < pool.fulls.capacity) : (storer.step? .queue pool).isSome := by
  unfold step?
  cases phase : storer.phase with
  | acquiring call =>
    simp only [IsShaped, phase] at shaped
    simp only [held, phase] at room
    simp only [callStep, Option.isSome_map]
    refine Pool.Call.advance_isSome isOpen ?_ ?_ fun one => room (by omega)
    · rintro rfl
      cases shaped
    · rintro rfl
      exact fetches phase
  | storing buffer => rfl
  | returning call =>
    simp only [IsShaped, phase] at shaped
    simp only [held, phase] at room
    simp only [callStep, Option.isSome_map]
    refine Pool.Call.advance_isSome isOpen ?_ ?_ fun one => room (by omega)
    · rintro rfl
      cases shaped
    · rintro rfl
      cases shaped
  | finished =>
    simp only [outcome?, phase] at runs
    cases runs
  | failed cause =>
    simp only [outcome?, phase] at runs
    cases runs

/-! ## The coordinator gives up only if a stage has failed -/

/-- The coordinator has given up and has not returned yet. -/
def Coordinator.HasGivenUp (coordinator : Coordinator) : Prop :=
  match coordinator.phase with
  | .aborting _ => True
  | .cancelling _ _ => True
  | .shuttingDown _ _ => True
  | _ => False

namespace Dump

variable {job : Job σ} {assured : Prop} {time : Moment} {dump after : Dump σ}
  {files changed : Files} {filled : List Buffer} {marks : Nat}

omit [RecordSource σ] in
theorem not_isWell_of_outcome {stage : Stage} {cause : Error}
    (outcome : dump.outcome? stage = some (.error cause)) : ¬ dump.IsWell := by
  intro well
  cases stage with
  | download =>
    simp only [outcome?, Download.outcome?] at outcome
    split at outcome
    · cases outcome
    · next failed => exact well.download _ failed
    · cases outcome
  | transform id =>
    obtain ⟨worker, here, isOver⟩ := Option.bind_eq_some_iff.mp outcome
    simp only [Worker.outcome?] at isOver
    split at isOver
    · cases isOver
    · next failed => exact well.workers worker (List.mem_of_getElem? here) _ failed
    · cases isOver
  | sortAndStore =>
    simp only [outcome?, Storer.outcome?] at outcome
    split at outcome
    · cases outcome
    · next failed => exact well.storer _ failed
    · cases outcome

omit [RecordSource σ] in
theorem Joins.not_isWell {stage : Stage} (step : dump.Joins stage after)
    (before : dump.coordinator.HasGivenUp → ¬ dump.IsWell)
    (givenUp : after.coordinator.HasGivenUp) : ¬ after.IsWell := by
  intro well
  have wellBefore := step.isWell_before well
  cases step with
  | badly phase here outcome => exact not_isWell_of_outcome outcome wellBefore
  | late phase => exact before (by simp only [Coordinator.HasGivenUp, phase]) wellBefore
  | lastWorker => exact givenUp.elim
  | storer => exact givenUp.elim
  | download phase =>
    simp only [Coordinator.HasGivenUp, withCoordinator_coordinator, Coordinator.joinDownload,
      Coordinator.tell, Coordinator.strike, phase] at givenUp
  | worker phase =>
    simp only [Coordinator.HasGivenUp, withCoordinator_coordinator, Coordinator.noteWorker,
      Coordinator.tell, Coordinator.strike, phase] at givenUp

omit [RecordSource σ] in
/-- Once the coordinator has seen all stages end it has what it needs to close the store. -/
theorem Knows.not_missing (knows : dump.Knows) (isOver : dump.coordinator.outstanding = []) :
    ¬ (dump.coordinator.downloaded = none ∨ dump.coordinator.stored = none) := by
  have seen (stage : Stage) : dump.HasSeen stage := by
    rw [HasSeen, isOver]
    exact List.not_mem_nil
  rw [knows.downloaded (seen _), knows.stored (seen _)]
  rintro (none | none) <;> cases none

omit [RecordSource σ] in
theorem Coordinates.not_isWell (step : dump.Coordinates assured time files after changed)
    (stocking : dump.Stocking job filled marks) (signals : dump.Signals marks)
    (ends : dump.Ends job) (knows : dump.coordinator.IsCalm → dump.Knows)
    (before : dump.coordinator.HasGivenUp → ¬ dump.IsWell)
    (givenUp : after.coordinator.HasGivenUp) : ¬ after.IsWell := by
  intro well
  have wellBefore := step.isWell_before well
  cases step with
  | missed phase isOver missing =>
    have calm : dump.coordinator.IsCalm := by simp only [Coordinator.IsCalm, phase]
    exact (knows calm).not_missing isOver missing
  | signalFailed phase advance => exact stocking.signal_ok signals ends phase advance
  | drainFailed phase advance =>
    have kind := ends.coordinator
    simp only [Coordinator.IsShaped, phase] at kind
    cases advance <;> cases kind
  | aborted phase => exact before (by simp only [Coordinator.HasGivenUp, phase]) wellBefore
  | cancelled phase => exact before (by simp only [Coordinator.HasGivenUp, phase]) wellBefore
  | allCancelled phase => exact before (by simp only [Coordinator.HasGivenUp, phase]) wellBefore
  | _ => exact givenUp.elim

theorem Moves.not_isWell {action : Action}
    (step : Moves job assured time dump files action after changed)
    (stocking : dump.Stocking job filled marks) (signals : dump.Signals marks)
    (ends : dump.Ends job) (knows : dump.coordinator.IsCalm → dump.Knows)
    (before : dump.coordinator.HasGivenUp → ¬ dump.IsWell)
    (givenUp : after.coordinator.HasGivenUp) : ¬ after.IsWell := by
  have well := step.isWell_before
  cases step with
  | join step => exact step.not_isWell before givenUp
  | coordinate step => exact step.not_isWell stocking signals ends knows before givenUp
  | _ => exact fun still => before givenUp (well still)

end Dump

variable {job : Job σ} {assured : Prop} {files₀ : Files} {actions : List Action}
  {log : List (Nat × Record)} {world : World σ}

theorem Job.Reaches.not_isWell (workers : 0 < job.settings.workers)
    (reached : job.Reaches assured files₀ actions log world)
    (givenUp : world.dump.coordinator.HasGivenUp) : ¬ world.dump.IsWell := by
  induction reached using Job.Reaches.rec_moves with
  | opened time started opens => exact givenUp.elim
  | move before _ step ih =>
    obtain ⟨filled, marks, stocking, signals⟩ := before.stocking workers
    exact step.not_isWell stocking signals before.ends before.knows ih givenUp

namespace Dump

variable {dump : Dump σ} {filled : List Buffer} {marks : Nat}

/-- The step that an action makes is possible. -/
def Enables (job : Job σ) (dump : Dump σ) (action : Action) : Prop :=
  (dump.step? job action).isSome

omit [RecordSource σ] in
/-- While somebody holds a buffer, both queues of the pool have room for it. -/
theorem Stocking.room (stocking : dump.Stocking job filled marks) (some : 0 < dump.held) :
    dump.shared.pool.empties.items.length < dump.shared.pool.empties.capacity ∧
      dump.shared.pool.fulls.items.length < dump.shared.pool.fulls.capacity := by
  have bound := stocking.bound
  have single := stocking.single
  have one : (if dump.shared.pool.ended then 1 else 0) ≤ 1 := by split <;> omega
  rw [stocking.capacity.1, stocking.capacity.2, stocking.fulls, List.length_append,
    List.length_map, List.length_replicate]
  constructor <;> omega

omit [RecordSource σ] in
theorem held_pos {worker : Worker} (member : worker ∈ dump.workers) (some : 0 < worker.held) :
    0 < dump.held := by
  have mine : worker.held ≤ total (dump.workers.map Worker.held) := le_total_of_mem member
  rw [Dump.held]
  omega

/-- A worker that runs can take a step unless it waits for an item of the raw queue or for an empty
buffer, and there is none. -/
theorem worker_waits {id : Nat} {worker : Worker} (ends : dump.Ends job)
    (stocking : dump.Stocking job filled marks)
    (relaying : ∃ batches marks stops, dump.Relaying batches marks stops)
    (queue : 0 < job.settings.queueCapacity) (here : dump.workers[id]? = some worker)
    (runs : worker.outcome? = none) :
    dump.Enables job (.worker id .queue) ∨
      worker.phase = .receiving .wait ∧ dump.shared.raw.items = [] ∨
      (∃ path payload rest, worker.phase = .acquiring (.takeEmpty .wait) path payload rest) ∧
        dump.shared.pool.empties.items = [] := by
  have member := List.mem_of_getElem? here
  by_cases receives : worker.phase = .receiving .wait ∧ dump.shared.raw.items = []
  · exact .inr (.inl receives)
  by_cases acquires : (∃ path payload rest,
      worker.phase = .acquiring (.takeEmpty .wait) path payload rest) ∧
        dump.shared.pool.empties.items = []
  · exact .inr (.inr acquires)
  refine .inl ?_
  have stepped : (worker.step? job.extraction .queue dump.shared).isSome := by
    refine Worker.step?_isSome runs (ends.isOpen here runs) (ends.shaped worker member) ?_ ?_ ?_ ?_
    · exact fun phase none => receives ⟨phase, none⟩
    · intro phase
      obtain ⟨batches, marks, stops, relaying⟩ := relaying
      rw [relaying.items_eq_nil member phase, ends.capacity]
      exact queue
    · exact fun path payload rest phase none => acquires ⟨⟨path, payload, rest, phase⟩, none⟩
    · exact fun some => stocking.room (held_pos member some)
  simpa only [Enables, step?, here, Option.bind_some, Option.isSome_map] using stepped

/-- Sort-and-store, while it runs, can take a step unless it waits for a full buffer and there is
none. -/
theorem storer_waits (ends : dump.Ends job) (stocking : dump.Stocking job filled marks)
    (runs : dump.storer.outcome? = none) :
    dump.Enables job (.storer .queue) ∨
      dump.storer.phase = .acquiring (.takeFull .wait) ∧ dump.shared.pool.fulls.items = [] := by
  by_cases fetches : dump.storer.phase = .acquiring (.takeFull .wait) ∧
      dump.shared.pool.fulls.items = []
  · exact .inr fetches
  refine .inl ?_
  have stepped : (dump.storer.step? .queue dump.shared.pool).isSome := by
    refine Storer.step?_isSome runs ends.pool ends.storer (fun phase none => fetches ⟨phase, none⟩)
      fun some => stocking.room ?_
    rw [Dump.held]
    omega
  simpa only [Enables, step?, Option.isSome_map] using stepped

/-- Whoever waits for an empty buffer while there is none does not wait in vain: sort-and-store has
one in hand or in its queue. -/
theorem storer_serves (ends : dump.Ends job) (stocking : dump.Stocking job filled marks)
    (smooth : dump.IsSmooth) (buffers : job.settings.budget.buffers = job.settings.workers + 1)
    {worker : Worker} (member : worker ∈ dump.workers) {path : String} {payload : Bytes}
    {rest : List Record} (waits : worker.phase = .acquiring (.takeEmpty .wait) path payload rest)
    (none : dump.shared.pool.empties.items = []) : dump.Enables job (.storer .queue) := by
  have unfinished : dump.storer.phase ≠ .finished := by
    intro isOver
    have single := stocking.single
    simp only [Storer.marks, isOver] at single
    cases ended : dump.shared.pool.ended with
    | true =>
      have finished := stocking.isOver ended worker member
      rw [waits] at finished
      cases finished
    | false =>
      rw [ended] at single
      simp only [Bool.false_eq_true, if_false] at single
      omega
  have runs : dump.storer.outcome? = .none := by
    unfold Storer.outcome?
    split
    · next isOver => exact absurd isOver unfinished
    · next failed => exact absurd failed (smooth.storer _)
    · rfl
  rcases storer_waits ends stocking runs with enabled | ⟨phase, noFull⟩
  · exact enabled
  · -- then all buffers would be held by the workers, of which one holds none
    have all := stocking.kept smooth unfinished
    have idle : worker.held = 0 := by simp only [Worker.held, waits]; rfl
    have fewer : total (dump.workers.map Worker.held) < dump.workers.length :=
      total_lt_length (fun other _ => other.held_le) member idle
    have storer : dump.storer.held = 0 := by simp only [Storer.held, phase]; rfl
    have nothing : filled = [] := by
      have fulls := stocking.fulls
      rw [noFull] at fulls
      cases filled with
      | nil => rfl
      | cons => cases fulls
    rw [none, nothing, Dump.held, storer, buffers] at all
    rw [ends.length_eq] at fewer
    simp only [List.length_nil] at all
    omega

/-- Nobody can take a step. -/
def IsStuck (job : Job σ) (dump : Dump σ) : Prop :=
  ∀ action, ¬ dump.Enables job action

/-- In a dump that is stuck a worker either has ended or waits for the raw queue, which is empty. -/
theorem IsStuck.worker (stuck : dump.IsStuck job) (ends : dump.Ends job)
    (stocking : dump.Stocking job filled marks)
    (relaying : ∃ batches marks stops, dump.Relaying batches marks stops) (sized : job.settings.IsSized)
    (smooth : dump.IsSmooth) {worker : Worker} (member : worker ∈ dump.workers) :
    worker.phase = .finished ∨
      worker.phase = .receiving .wait ∧ dump.shared.raw.items = [] := by
  obtain ⟨id, here⟩ := List.mem_iff_getElem?.mp member
  cases outcome : worker.outcome? with
  | some ended =>
    left
    unfold Worker.outcome? at outcome
    split at outcome
    · assumption
    · next failed => exact absurd failed (smooth.workers worker member _)
    · cases outcome
  | none =>
    right
    have queue : 0 < job.settings.queueCapacity := Nat.lt_of_lt_of_le (by decide) sized.queue
    rcases worker_waits ends stocking relaying queue here outcome with
      enabled | receives | ⟨⟨path, payload, rest, waits⟩, none⟩
    · exact absurd enabled (stuck _)
    · exact receives
    · exact absurd (storer_serves ends stocking smooth sized.buffers member waits none) (stuck _)

/-- In a dump that is stuck the download has ended. -/
theorem IsStuck.download (stuck : dump.IsStuck job) (ends : dump.Ends job)
    (relaying : ∃ batches marks stops, dump.Relaying batches marks stops) (sized : job.settings.IsSized)
    (smooth : dump.IsSmooth)
    (workers : ∀ worker ∈ dump.workers, worker.phase = .finished ∨
      worker.phase = .receiving .wait ∧ dump.shared.raw.items = []) :
    dump.download.phase = .finished := by
  obtain ⟨batches, marks, stops, relaying⟩ := relaying
  by_contra goesOn
  have runs : dump.download.outcome? = none := by
    unfold Download.outcome?
    split
    · next isOver => exact absurd isOver goesOn
    · next failed => exact absurd failed (smooth.download _)
    · rfl
  -- no worker has seen the end of the stream, so some worker waits, and the queue is empty
  have unseen := relaying.behind.resolve_right fun both => goesOn both.2
  obtain ⟨worker, member⟩ : ∃ worker, worker ∈ dump.workers := by
    refine List.exists_mem_of_length_pos ?_
    rw [ends.length_eq]
    exact sized.workers
  have sees : worker.sees ≤ total (dump.workers.map Worker.sees) := le_total_of_mem member
  have empty : dump.shared.raw.items = [] := by
    rcases workers worker member with isOver | ⟨-, none⟩
    · simp only [Worker.sees, isOver] at sees
      omega
    · exact none
  have stepped : (dump.download.step? job.request .queue dump.shared.raw).isSome := by
    refine Download.step?_isSome runs ?_ ?_
    · rw [ends.receivers]
      omega
    · rw [empty, ends.capacity]
      exact Nat.lt_of_lt_of_le (by decide) sized.queue
  exact stuck (.download .queue) (by simpa only [Enables, step?, Option.isSome_map] using stepped)

end Dump

variable {job : Job σ} {assured : Prop} {files₀ : Files} {actions : List Action}
  {log : List (Nat × Record)} {world : World σ}

end TreeExport

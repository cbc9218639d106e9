import TreeExport.Proofs.Dump.Completion
import TreeExport.Proofs.Dump.Turns
import TreeExport.Proofs.Pool.Users

/-!
# The counts of the pool of a dump

What the stages hold and what their operations are counted as make the counts of the pool exact
(`Dump.Counting`), also of a dump that fails; only what a failed stage held is lost.  The
coordinator releases the buffers after sort-and-store has ended, when nobody else is left to use
one.  So after a successful run all buffers are released (`Dump.Counting.released`).
-/

namespace TreeExport

/-! ## What the stages are counted for -/

/-- What a worker adds to what is counted as being in a place. -/
def Worker.share (worker : Worker) (slot : Pool.Slot) : Nat :=
  match worker.phase with
  | .acquiring call _ _ _ => call.share slot
  | .submitting call _ _ _ => call.share slot
  | .givingUp call => call.share slot
  | .finished => 0
  | .failed _ => 0
  | _ => if slot = .held then worker.current.toList.length else 0

/-- What sort-and-store adds to what is counted as being in a place. -/
def Storer.share (storer : Storer) (slot : Pool.Slot) : Nat :=
  match storer.phase with
  | .acquiring call => call.share slot
  | .storing _ => if slot = .held then 1 else 0
  | .returning call => call.share slot
  | _ => 0

/-- What the coordinator adds to what is counted as being in a place. -/
def Coordinator.share (coordinator : Coordinator) (slot : Pool.Slot) : Nat :=
  match coordinator.phase with
  | .signalling call => call.share slot
  | .draining call => call.share slot
  | _ => 0

namespace Worker

variable {extraction : Extraction} {worker after : Worker} {shared sharedAfter : Shared}
  {call : Pool.Call}

theorem share_of_acquiring {path : String} {payload : Bytes} {rest : List Record}
    (phase : worker.phase = .acquiring call path payload rest) : worker.share = call.share :=
  funext fun slot => by simp only [share, phase]

theorem share_of_submitting {path : String} {payload : Bytes} {rest : List Record}
    (phase : worker.phase = .submitting call path payload rest) : worker.share = call.share :=
  funext fun slot => by simp only [share, phase]

theorem share_of_givingUp (phase : worker.phase = .givingUp call) : worker.share = call.share :=
  funext fun slot => by simp only [share, phase]

/-- What a worker was counted for is counted for him after his step, unless he fails. -/
theorem Moves.keeps (step : Moves extraction worker shared after sharedAfter)
    (shaped : worker.IsShaped) :
    shared.pool.Keeps worker.share sharedAfter.pool after.share after.IsWell := by
  cases step with
  | acquiring phase kind step =>
    rw [share_of_acquiring phase, share_of_acquiring rfl]
    exact step.keeps_going (by rw [kind]; decide)
  | submitting phase kind step =>
    rw [share_of_submitting phase, share_of_submitting rfl]
    exact step.keeps_going (by rw [kind]; decide)
  | givingUp phase kind step =>
    rw [share_of_givingUp phase, share_of_givingUp rfl]
    exact step.keeps_going (by rcases kind with kind | kind <;> rw [kind] <;> decide)
  | acquireFailed phase kind step =>
    rw [share_of_acquiring phase]
    exact step.keeps_failed (fun _ => rfl) fun well => well _ rfl
  | submitFailed phase kind step =>
    rw [share_of_submitting phase]
    exact step.keeps_failed (fun _ => rfl) fun well => well _ rfl
  | giveUpFailed phase kind step =>
    rw [share_of_givingUp phase]
    exact step.keeps_failed (fun _ => rfl) fun well => well _ rfl
  | acquired phase kind step =>
    rw [share_of_acquiring phase]
    exact step.keeps_answered fun slot => rfl
  | submitted phase kind step =>
    simp only [IsShaped, phase] at shaped
    rw [share_of_submitting phase]
    refine step.keeps_answered fun slot => ?_
    simp only [share, goTo, shaped.2]
    cases step with
    | submitted => rfl
    | _ => cases kind
  | gaveUp phase kind step =>
    rw [share_of_givingUp phase]
    refine step.keeps_answered fun slot => ?_
    cases step with
    | submitted | givenBack => exact (ite_self 0).symm
    | _ => rcases kind with other | other <;> cases other
  | receiveStopped phase | forwardStopped phase | malformed _ phase | unencodable _ phase
  | tooLong phase | oversized phase =>
    exact .of_lost worker.current.toList.length (fun slot => by simp only [share, phase])
      (fun _ => rfl) fun well => well _ rfl
  | placeFirst phase nothing | flushNothing phase nothing =>
    refine .of_same fun slot => ?_
    simp only [share, goTo, phase, nothing]
    exact (ite_self 0).symm
  | placed live phase current | placeFull phase current | flushEmpty phase current
  | flushLast phase current =>
    refine .of_same fun slot => ?_
    simp only [share, phase, current]
    cases slot <;> rfl
  | _ => exact .of_same fun slot => by simp only [share, goTo, counting, ‹worker.phase = _›]

end Worker

namespace Storer

variable {assured : Prop} {time : Moment} {storer after : Storer} {pool poolAfter : Pool}
  {files changed : Files} {call : Pool.Call}

theorem share_of_acquiring (phase : storer.phase = .acquiring call) : storer.share = call.share :=
  funext fun slot => by simp only [share, phase]

theorem share_of_returning (phase : storer.phase = .returning call) : storer.share = call.share :=
  funext fun slot => by simp only [share, phase]

/-- What sort-and-store was counted for is counted for it after its step, unless it fails. -/
theorem Moves.keeps (step : Moves assured time storer pool files after poolAfter changed) :
    pool.Keeps storer.share poolAfter after.share after.IsWell := by
  cases step with
  | fetching phase kind step =>
    rw [share_of_acquiring phase, share_of_acquiring rfl]
    exact step.keeps_going (by rw [kind]; decide)
  | returning phase kind step =>
    rw [share_of_returning phase, share_of_returning rfl]
    exact step.keeps_going (by rw [kind]; decide)
  | fetched phase kind step =>
    rw [share_of_acquiring phase]
    exact step.keeps_answered fun slot => rfl
  | ended phase kind step =>
    rw [share_of_acquiring phase]
    exact step.keeps_answered fun slot => (ite_self 0).symm
  | returned phase kind step =>
    rw [share_of_returning phase]
    refine step.keeps_answered fun slot => ?_
    cases step with
    | givenBack => exact (ite_self 0).symm
    | _ => cases kind
  | fetchFailed phase kind step =>
    rw [share_of_acquiring phase]
    exact step.keeps_failed (fun _ => rfl) fun well => well _ rfl
  | returnFailed phase kind step =>
    rw [share_of_returning phase]
    exact step.keeps_failed (fun _ => rfl) fun well => well _ rfl
  | stored phase done =>
    obtain ⟨entries, answer, -, -, rfl⟩ := store_ok done
    refine .of_same fun slot => ?_
    simp only [share, phase]
    cases slot <;> rfl
  | storeFailed phase =>
    exact .of_lost 1 (fun slot => by simp only [share, phase]) (fun _ => rfl) fun well => well _ rfl

end Storer

namespace Coordinator

variable {coordinator : Coordinator} {call : Pool.Call}

theorem share_of_signalling (phase : coordinator.phase = .signalling call) :
    coordinator.share = call.share :=
  funext fun slot => by simp only [share, phase]

theorem share_of_draining (phase : coordinator.phase = .draining call) :
    coordinator.share = call.share :=
  funext fun slot => by simp only [share, phase]

end Coordinator

/-! ## The pool of a dump -/

namespace Dump

variable {σ : Type}

/-- What the parties add to what is counted as being in a place. -/
def share (dump : Dump σ) (slot : Pool.Slot) : Nat :=
  total (dump.workers.map fun worker => worker.share slot) +
    (dump.storer.share slot + dump.coordinator.share slot)

/-- The counts of the pool are right.  So many buffers are lost and so many released, and none is
lost as long as the dump is smooth. -/
structure Counting (job : Job σ) (dump : Dump σ) (lost freed : Nat) : Prop where
  size : dump.shared.pool.size = job.settings.budget.buffers
  sum : dump.shared.pool.counts.total = job.settings.budget.buffers
  exact : ∀ slot, dump.shared.pool.CountsExactly slot
    (dump.share slot + Pool.aside lost freed slot)
  kept : dump.IsSmooth → lost = 0

/-- Once the coordinator is through with releasing the buffers, no empty one is left. -/
def HasDrained (dump : Dump σ) : Prop :=
  dump.coordinator.IsCalm → dump.HasSeen .sortAndStore →
    (∀ call, dump.coordinator.phase ≠ .draining call) → dump.shared.pool.empties.items = []

variable {job : Job σ} {assured : Prop} {time : Moment} {dump after : Dump σ}
  {files changed : Files} {action : Action} {lost freed : Nat}

/-- One party recounts what it stands for. -/
theorem Counting.recount (counting : dump.Counting job lost freed) {share shareAfter : Pool.Slot → Nat}
    {more released : Nat}
    (recounts : dump.shared.pool.Recounts share after.shared.pool shareAfter
      (Pool.aside more released))
    (exchanged : ∀ slot, after.share slot + share slot = dump.share slot + shareAfter slot)
    (within : ∀ slot, share slot ≤ dump.share slot)
    (kept : after.IsSmooth → dump.IsSmooth ∧ more = 0) :
    after.Counting job (lost + more) (freed + released) := by
  have sums (slot : Pool.Slot) : Pool.aside (lost + more) (freed + released) slot =
      Pool.aside lost freed slot + Pool.aside more released slot := by
    cases slot <;> rfl
  refine ⟨recounts.size.trans counting.size, (recounts.total fun slot => ?_).trans counting.sum,
    fun slot => ?_, fun smooth => ?_⟩
  · have counted := counting.exact slot
    have mine := within slot
    rw [Pool.CountsExactly] at counted
    omega
  · have counted := counting.exact slot
    have mine := within slot
    have same := exchanged slot
    have later := recounts.exact slot (dump.share slot - share slot + Pool.aside lost freed slot)
    rw [sums]
    unfold Pool.CountsExactly at *
    omega
  · obtain ⟨before, none⟩ := kept smooth
    rw [counting.kept before, none]

/-- Nobody does anything with the pool. -/
theorem Counting.of_same (counting : dump.Counting job lost freed)
    (pool : after.shared.pool = dump.shared.pool) (same : ∀ slot, after.share slot = dump.share slot)
    (smooth : after.IsSmooth → dump.IsSmooth) : after.Counting job lost freed := by
  refine ⟨?_, ?_, fun slot => ?_, fun still => counting.kept (smooth still)⟩
  · rw [pool]
    exact counting.size
  · rw [pool]
    exact counting.sum
  · rw [pool, same]
    exact counting.exact slot

/-- The coordinator takes a step of an operation. -/
theorem Counting.call (counting : dump.Counting job lost freed) {call : Pool.Call} {pool : Pool}
    {progress : Pool.Progress} {coordinator : Coordinator} (released : Nat)
    (step : Pool.Call.Advances dump.shared.pool false call pool progress)
    (mine : dump.coordinator.share = call.share)
    (same : ∀ slot, coordinator.share slot + Pool.aside 0 released slot =
      progress.share slot + call.settles progress slot)
    (smooth : ((dump.withPool pool).withCoordinator coordinator).IsSmooth → dump.IsSmooth) :
    ∃ freed, ((dump.withPool pool).withCoordinator coordinator).Counting job lost freed := by
  have recounts : dump.shared.pool.Recounts dump.coordinator.share pool coordinator.share
      (Pool.aside 0 released) := by
    rw [mine]
    exact step.recounts same
  refine ⟨_, counting.recount recounts (fun slot => ?_) (fun slot => ?_) fun still =>
    ⟨smooth still, rfl⟩⟩
  · simp only [share, withCoordinator, withPool]
    omega
  · unfold share
    omega

theorem Counting.join {stage : Stage} (counting : dump.Counting job lost freed)
    (step : dump.Joins stage after) : after.Counting job lost freed := by
  have smooth := step.isSmooth_before
  refine counting.of_same (by cases step <;> rfl) (fun slot => ?_) smooth
  have before : dump.coordinator.share slot = 0 := by
    cases step <;> simp only [Coordinator.share, ‹dump.coordinator.phase = _›]
  have later : after.coordinator.share slot = 0 := by
    cases step with
    | download phase | worker phase => exact before
    | _ => rfl
  have others : after.workers = dump.workers ∧ after.storer = dump.storer := by
    cases step <;> exact ⟨rfl, rfl⟩
  rw [share, share, before, later, others.1, others.2]

theorem Counting.coordinate (counting : dump.Counting job lost freed) (ends : dump.Ends job)
    (step : dump.Coordinates assured time files after changed) :
    ∃ freed, after.Counting job lost freed := by
  have smooth := step.isSmooth_before
  have quiet {coordinator : Coordinator} (before : ∀ slot, dump.coordinator.share slot = 0)
      (later : ∀ slot, coordinator.share slot = 0)
      (smooth : (dump.withCoordinator coordinator).IsSmooth → dump.IsSmooth) :
      ∃ freed, (dump.withCoordinator coordinator).Counting job lost freed := by
    refine ⟨freed, counting.of_same rfl (fun slot => ?_) smooth⟩
    simp only [share, withCoordinator, before, later]
  have kind := ends.coordinator
  cases step with
  | signalling phase step =>
    have mine : dump.coordinator.share = _ := Coordinator.share_of_signalling phase
    simp only [Coordinator.IsShaped, phase] at kind
    refine counting.call 0 step mine (fun slot => ?_) smooth
    rw [Pool.Call.settles_going (by rw [step.kind_eq, kind]; decide)]
    cases slot <;> rfl
  | signalled phase step =>
    have mine : dump.coordinator.share = _ := Coordinator.share_of_signalling phase
    simp only [Coordinator.IsShaped, phase] at kind
    refine counting.call 0 step mine (fun slot => ?_) smooth
    cases step with
    | placeEnd => cases slot <;> rfl
    | _ => cases kind
  | signalFailed phase step =>
    have mine : dump.coordinator.share = _ := Coordinator.share_of_signalling phase
    simp only [Coordinator.IsShaped, phase] at kind
    refine counting.call 0 step mine (fun slot => ?_) smooth
    cases step with
    | signalTwice | noRoomForEnd => cases slot <;> rfl
    | _ => cases kind
  | draining phase step =>
    have mine : dump.coordinator.share = _ := Coordinator.share_of_draining phase
    simp only [Coordinator.IsShaped, phase] at kind
    cases step with
    | drainFirst first =>
      exact counting.call 0 (.drainFirst first) mine (fun slot => by cases slot <;> rfl) smooth
    | drained =>
      exact counting.call 1 (.drained _) mine (fun slot => by cases slot <;> rfl) smooth
    | _ => cases kind
  | drained phase step =>
    have mine : dump.coordinator.share = _ := Coordinator.share_of_draining phase
    simp only [Coordinator.IsShaped, phase] at kind
    refine counting.call 0 step mine (fun slot => ?_) smooth
    cases step with
    | drainDone => cases slot <;> rfl
    | _ => cases kind
  | drainFailed phase step =>
    simp only [Coordinator.IsShaped, phase] at kind
    cases step <;> cases kind
  | @cancelled _ stage _ phase =>
    refine ⟨freed, counting.of_same (cancel_shared dump stage ▸ rfl) (fun slot => ?_) smooth⟩
    have workers := map_cancel_workers (f := fun worker => worker.share slot) (fun _ => rfl) dump
      stage
    simp only [share, withCoordinator, workers, Coordinator.share, Coordinator.goTo, phase]
    cases stage <;> rfl
  | started phase =>
    refine ⟨freed, counting.of_same rfl (fun slot => ?_) smooth⟩
    simp only [share, Coordinator.share, Coordinator.tell, phase]
  | _ =>
    exact quiet (fun slot => by simp only [Coordinator.share, ‹dump.coordinator.phase = _›])
      (fun _ => rfl) smooth

/-! ### The buffers are released -/

theorem HasDrained.join {stage : Stage} (drained : dump.HasDrained) (step : dump.Joins stage after) :
    after.HasDrained := by
  intro calm seen through
  have before := step.isCalm_before calm
  have waits : ∀ {call}, dump.coordinator.phase = .waiting →
      dump.coordinator.phase ≠ .draining call := fun phase other => by
    cases phase.symm.trans other
  cases step with
  | download phase =>
    refine drained before (((hasSeen_strike rfl).mp seen).resolve_right nofun) fun _ => waits phase
  | worker phase =>
    refine drained before (((hasSeen_strike rfl).mp seen).resolve_right nofun) fun _ => waits phase
  | lastWorker phase =>
    refine drained before (((hasSeen_strike rfl).mp seen).resolve_right nofun) fun _ => waits phase
  | storer => exact absurd rfl (through _)
  | badly => exact calm.elim
  | late => exact calm.elim

theorem HasDrained.coordinate (drained : dump.HasDrained) (ends : dump.Ends job)
    (step : dump.Coordinates assured time files after changed) : after.HasDrained := by
  intro calm now through
  have before := step.isCalm_before calm
  have seen := step.hasSeen_iff.mp now
  have kind := ends.coordinator
  cases step with
  | draining => exact absurd rfl (through _)
  | drained phase step =>
    simp only [Coordinator.IsShaped, phase] at kind
    cases step with
    | drainDone released none => exact none
    | _ => cases kind
  | signalling phase step =>
    simp only [Coordinator.IsShaped, phase] at kind
    cases step with
    | signalEnd => exact drained before seen fun call other => by cases phase.symm.trans other
    | _ => cases kind
  | signalled phase step =>
    simp only [Coordinator.IsShaped, phase] at kind
    cases step with
    | placeEnd => exact drained before seen fun call other => by cases phase.symm.trans other
    | _ => cases kind
  | started phase | allSeen phase | closed phase =>
    exact drained before seen fun call other => by cases phase.symm.trans other
  | _ => exact calm.elim

/-! ### All steps -/

theorem counting_start (job : Job σ) (writer : Store.Writer) (time : Moment) :
    (start job writer time).Counting job 0 0 := by
  have idle (slot : Pool.Slot) :
      total ((start job writer time).workers.map fun worker => worker.share slot) = 0 :=
    total_workers_start job writer time fun _ => by cases slot <;> rfl
  refine ⟨rfl, rfl, fun slot => ?_, fun _ => rfl⟩
  rw [share, idle]
  cases slot with
  | empty => exact ((List.length_map _).trans List.length_range).symm
  | _ => rfl

variable [RecordSource σ] {filled : List Buffer} {marks : Nat}

theorem Counting.move (counting : dump.Counting job lost freed) (ends : dump.Ends job)
    (step : Moves job assured time dump files action after changed) :
    ∃ lost freed, after.Counting job lost freed := by
  have smooth := step.isSmooth_before
  cases step with
  | download => exact ⟨lost, freed, counting.of_same rfl (fun _ => rfl) smooth⟩
  | @worker id _ worker worked shared here step =>
    have member := List.mem_of_getElem? here
    obtain ⟨more, recounts, kept⟩ := step.keeps (ends.shaped worker member)
    refine ⟨_, _, counting.recount recounts (fun slot => ?_) (fun slot => ?_) fun still =>
      ⟨smooth still, kept (still.workers worked (mem_set_of_getElem? worked here))⟩⟩
    · have exchanged := total_map_set (f := fun worker => worker.share slot) worked here
      simp only [share]
      omega
    · exact Nat.le_trans (le_total_of_mem (f := fun worker => worker.share slot) member)
        (Nat.le_add_right _ _)
  | storer step =>
    obtain ⟨more, recounts, kept⟩ := step.keeps
    refine ⟨_, _, counting.recount recounts (fun slot => ?_) (fun slot => ?_) fun still =>
      ⟨smooth still, kept still.storer⟩⟩
    · simp only [share]
      omega
    · unfold share
      omega
  | join step => exact ⟨lost, freed, counting.join step⟩
  | coordinate step => exact ⟨lost, counting.coordinate ends step⟩

/-- Nobody but the coordinator is left to use the pool when it releases the buffers. -/
theorem HasDrained.move (drained : dump.HasDrained) (ends : dump.Ends job)
    (stocking : dump.Stocking job filled marks) (knows : dump.coordinator.IsCalm → dump.Knows)
    (step : Moves job assured time dump files action after changed) : after.HasDrained := by
  cases step with
  | download => exact drained
  | worker here step =>
    intro calm seen
    have isOver := (knows calm).storer seen
    have single := stocking.single
    simp only [Storer.marks, isOver] at single
    have ended : dump.shared.pool.ended = true := by
      by_contra goesOn
      simp only [goesOn, if_false] at single
      omega
    exact absurd (stocking.isOver ended _ (List.mem_of_getElem? here)) step.phase_ne_finished
  | storer step =>
    intro calm seen
    exact absurd ((knows calm).storer seen) step.phase_ne_finished
  | join step => exact drained.join step
  | coordinate step => exact drained.coordinate ends step

omit [RecordSource σ] in
/-- Once the coordinator has returned well, all buffers are released. -/
theorem Counting.released (counting : dump.Counting job lost freed) (drained : dump.HasDrained)
    (stocking : dump.Stocking job filled marks) (knows : dump.Knows) {result : RunResult}
    (returned : dump.coordinator.phase = .returned (.ok result)) :
    dump.shared.pool.counts = { empty := 0, released := job.settings.budget.buffers } := by
  have next := knows.next
  simp only [IsAtNext, returned] at next
  have done := knows.isDone next
  have calm : dump.coordinator.IsCalm := by simp only [Coordinator.IsCalm, returned]
  have none := counting.kept ⟨done.isWell, calm⟩
  have empties : dump.shared.pool.empties.items = [] :=
    drained calm (by rw [HasSeen, next]; exact List.not_mem_nil) fun call other => by
      cases returned.symm.trans other
  have fulls : dump.shared.pool.queued .full = [] := by
    rw [Pool.queued, stocking.fulls, stocking.behind done.storer, List.map_nil, List.nil_append]
    refine List.flatMap_eq_nil_iff.mpr fun item member => ?_
    rw [List.eq_of_mem_replicate member]
    rfl
  have idle (slot : Pool.Slot) : dump.share slot = 0 := by
    rw [share, total_eq_zero fun worker member => by
      simp only [Worker.share, done.workers worker member]]
    simp only [Storer.share, done.storer, Coordinator.share, returned]
  have empty := counting.exact .empty
  have full := counting.exact .full
  have held := counting.exact .held
  have sum := counting.sum
  rw [Pool.CountsExactly, idle] at empty full held
  rw [Pool.queued, empties] at empty
  rw [fulls] at full
  rw [none] at held
  rcases counts : dump.shared.pool.counts with ⟨n, m, k, released⟩
  rw [counts] at empty full held sum
  obtain rfl : n = 0 := empty
  obtain rfl : m = 0 := full
  obtain rfl : k = 0 := held
  obtain rfl : released = job.settings.budget.buffers := by
    simpa only [Pool.Counts.total, Nat.zero_add] using sum
  rfl

end Dump

/-! ## Reachable worlds -/

section Reachable

variable {σ : Type} [RecordSource σ] {job : Job σ} {assured : Prop} {files₀ : Files}
  {actions : List Action} {log : List (Nat × Record)} {world : World σ}

/-- In every world that is reached the counts of the pool are right. -/
theorem Job.Reaches.counting (reached : job.Reaches assured files₀ actions log world) :
    ∃ lost freed, world.dump.Counting job lost freed := by
  induction reached using Job.Reaches.rec_moves with
  | opened time started opens => exact ⟨0, 0, Dump.counting_start job _ started⟩
  | move before _ step ih =>
    obtain ⟨lost, freed, counting⟩ := ih
    exact counting.move before.ends step

theorem Job.Reaches.hasDrained (workers : 0 < job.settings.workers)
    (reached : job.Reaches assured files₀ actions log world) : world.dump.HasDrained := by
  induction reached using Job.Reaches.rec_moves with
  | opened time started opens =>
    refine fun _ seen => absurd ?_ seen
    exact List.mem_cons_of_mem _ (List.mem_append_right _ List.mem_cons_self)
  | move before _ step ih =>
    obtain ⟨filled, marks, stocking, -⟩ := before.stocking workers
    exact ih.move before.ends stocking before.knows step

end Reachable

/-- However many use a pool and in whatever order they take the steps of their operations, whether
they are stopped and whether they drop what they have acquired: the counts add up to the number of
buffers; the count of each place is the number of buffers there and of those on their way that are
counted there; every buffer of the pool is in one place, once; and no count is moved from a place
that is counted as having nothing.  In a dump the counts add up, too, and once it has ended well all
buffers are released. -/
theorem buffers_conserved {σ : Type} [RecordSource σ] :
    (∀ {size capacity maxEntries users : Nat} {scene : Pool.Scene},
      Pool.Scene.Reaches size capacity maxEntries users scene →
        (scene.pool.isConserved = true ∧ scene.pool.size = size) ∧
        (∀ slot, scene.pool.counts.get slot =
          (scene.present slot).length + (scene.moving slot).length) ∧
        (scene.buffers.map Buffer.number).Perm ((List.range size).map some) ∧
        ∀ {index : Nat} {user : Pool.User} {call : Pool.Call} {cancelled : Bool} {side : Side}
          {pool : Pool} {progress : Pool.Progress}, scene.users[index]? = some user →
          user.call = some call → call.advance scene.pool cancelled side = some (pool, progress) →
          pool.counts = scene.pool.counts ∨ ∃ source target, source ≠ target ∧
            0 < scene.pool.counts.get source ∧
            pool.counts = scene.pool.counts.transfer source target) ∧
    ∀ {job : Job σ} {assured : Prop} {files₀ : Files} {actions : List Action}
      {log : List (Nat × Record)} {world : World σ},
      job.Reaches assured files₀ actions log world → job.settings.Stands →
        (world.dump.shared.pool.isConserved = true ∧
          world.dump.shared.pool.size = job.settings.budget.buffers) ∧
        ∀ {result : RunResult}, world.dump.coordinator.phase = .returned (.ok result) →
          world.dump.shared.pool.counts =
            { empty := 0, full := 0, held := 0, released := job.settings.budget.buffers } := by
  constructor
  · intro size capacity maxEntries users scene reached
    have conserves := reached.conserves
    exact ⟨⟨beq_iff_eq.mpr (conserves.sum.trans conserves.sized.symm), conserves.sized⟩,
      conserves.get_eq, conserves.perm, conserves.advance_counts⟩
  · intro job assured files₀ actions log world reached stands
    have workers := stands.isSized.workers
    obtain ⟨lost, freed, counting⟩ := reached.counting
    refine ⟨⟨beq_iff_eq.mpr (counting.sum.trans counting.size.symm), counting.size⟩,
      fun returned => ?_⟩
    obtain ⟨filled, marks, stocking, -⟩ := reached.stocking workers
    have calm : world.dump.coordinator.IsCalm := by simp only [Coordinator.IsCalm, returned]
    exact counting.released (reached.hasDrained workers) stocking (reached.knows calm) returned

/-- While its one buffer is on its way to a user, a pool counts it as empty; and the small job with
two workers ends with its three buffers released. -/
theorem few_buffers_conserved :
    (∃ scene, Pool.Scene.Reaches 1 64 8 1 scene ∧ scene.pool.empties.items = [] ∧
      scene.pool.counts.get .empty = 1 ∧ (scene.moving .empty).length = 1 ∧
      scene.buffers.map Buffer.number = [some 0] ∧ scene.pool.isConserved = true) ∧
    (Job.smallWorld 2 60).dump.shared.pool.counts =
      { empty := 0, full := 0, held := 0, released := 3 } := by
  have pools := @buffers_conserved Source _
  constructor
  · have begun := @Pool.Scene.Step.begins (.start 1 64 8 1) 0 {} _ _ _ rfl rfl (.acquire [])
    have waits := @Pool.Scene.Step.goesOn
      ⟨.create 1 64 8, [⟨some (.takeEmpty .check), [], []⟩], [], []⟩ 0 _ _ (.takeEmpty .wait) false
      .queue _ rfl rfl rfl
    have takes := @Pool.Scene.Step.goesOn
      ⟨.create 1 64 8, [⟨some (.takeEmpty .wait), [], []⟩], [], []⟩ 0 _ _
      (.tookEmpty ⟨some 0, .empty 64 8⟩) false .queue _ rfl rfl rfl
    have reached := ((Relation.ReflTransGen.refl.tail begun).tail waits).tail takes
    obtain ⟨⟨conserved, -⟩, counts, -⟩ := pools.1 reached
    exact ⟨_, reached, rfl, counts .empty, rfl, rfl, conserved⟩
  · obtain ⟨actions, log, result, reached, returned⟩ := Job.small_ends
    exact (pools.2 reached Job.small_stands).2 returned

end TreeExport

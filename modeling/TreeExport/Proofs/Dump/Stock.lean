import TreeExport.Proofs.Dump.Bookkeeping
import TreeExport.Proofs.Pool.Trades

/-!
# Where the buffers are

A buffer is in one of the two queues of the pool or held by a worker or by sort-and-store, and there
are never more than the pool was made with (`Dump.Stocking`).  As long as the dump is smooth none is
lost either.  The end of input is signalled once, after all workers have ended, and nothing comes
behind it.  So none who hands a buffer on, and not the coordinator who signals, ever finds a queue
full.
-/

namespace TreeExport

/-! ## What the stages hold -/

/-- The number of buffers that a worker holds. -/
def Worker.held (worker : Worker) : Nat :=
  match worker.phase with
  | .acquiring call _ _ _ => call.held
  | .submitting call _ _ _ => call.held
  | .givingUp call => call.held
  | .finished => 0
  | .failed _ => 0
  | _ => worker.current.toList.length

theorem Worker.held_le (worker : Worker) : worker.held ≤ 1 := by
  have calls (call : Pool.Call) : call.held ≤ 1 := by
    cases call <;> first | exact Nat.le_refl 1 | exact Nat.zero_le 1
  unfold held
  split
  · exact calls _
  · exact calls _
  · exact calls _
  · exact Nat.zero_le 1
  · exact Nat.zero_le 1
  · cases worker.current with
    | none => exact Nat.zero_le 1
    | some => exact Nat.le_refl 1

namespace Storer

/-- The number of buffers that sort-and-store holds. -/
def held (storer : Storer) : Nat :=
  match storer.phase with
  | .acquiring call => call.held
  | .storing _ => 1
  | .returning call => call.held
  | _ => 0

/-- The number of ends of input that sort-and-store has received. -/
def marks (storer : Storer) : Nat :=
  match storer.phase with
  | .finished => 1
  | _ => 0

theorem marks_eq_zero {storer : Storer} (goesOn : storer.phase ≠ .finished) : storer.marks = 0 := by
  unfold marks
  split
  · next isOver => exact absurd isOver goesOn
  · rfl

end Storer

theorem Worker.Moves.fills {extraction : Extraction} {worker after : Worker}
    {shared sharedAfter : Shared} (step : Moves extraction worker shared after sharedAfter)
    (shaped : worker.IsShaped) :
    Pool.Fills (worker.cancelled = true ∨ shared.pool.ended = true ∨ ¬ after.IsWell) shared.pool
      worker.held sharedAfter.pool after.held := by
  have stopped : worker.cancelled = true ∨ shared.pool.ended = true →
      worker.cancelled = true ∨ shared.pool.ended = true ∨ ¬ after.IsWell :=
    fun why => why.imp_right .inl
  have fails {cause : Error} (phase : after.phase = .failed cause)
      (pool : sharedAfter.pool = shared.pool) :
      Pool.Fills (worker.cancelled = true ∨ shared.pool.ended = true ∨ ¬ after.IsWell) shared.pool
        worker.held sharedAfter.pool after.held := by
    have none : after.held = 0 := by simp only [held, phase]
    rw [pool, none]
    exact .drops rfl rfl (Nat.zero_le _) (.inr (.inr fun well => well cause phase))
  cases step with
  | receiveStopped => exact fails rfl rfl
  | forwardStopped => exact fails rfl rfl
  | malformed => exact fails rfl rfl
  | unencodable => exact fails rfl rfl
  | tooLong => exact fails rfl rfl
  | oversized => exact fails rfl rfl
  | acquiring phase kind step =>
    have fills := (step.fills (.inl kind)).mono stopped
    simp only [held, goTo, phase]
    exact fills
  | acquired phase kind step =>
    have fills := (step.fills (.inl kind)).mono stopped
    simp only [held, phase]
    exact fills
  | acquireFailed phase kind step =>
    have fills := (step.fills (.inl kind)).mono stopped
    simp only [held, goTo, phase]
    exact fills
  | submitting phase kind step =>
    have fills := (step.fills (.inr (.inl kind))).mono stopped
    simp only [held, goTo, phase]
    exact fills
  | submitted phase kind step =>
    have fills := (step.fills (.inr (.inl kind))).mono stopped
    simp only [IsShaped, phase] at shaped
    simp only [held, goTo, phase, shaped.2]
    cases step with
    | submitted => exact fills
    | _ => cases kind
  | submitFailed phase kind step =>
    have fills := (step.fills (.inr (.inl kind))).mono stopped
    simp only [held, goTo, phase]
    exact fills
  | givingUp phase kind step =>
    have fills := (step.fills (.inr kind)).mono stopped
    simp only [held, goTo, phase]
    exact fills
  | gaveUp phase kind step =>
    have fills := (step.fills (.inr kind)).mono stopped
    simp only [held, goTo, phase]
    cases step with
    | submitted => exact fills
    | givenBack => exact fills
    | _ => rcases kind with other | other <;> cases other
  | giveUpFailed phase kind step =>
    have fills := (step.fills (.inr kind)).mono stopped
    simp only [held, goTo, phase]
    exact fills
  | placeFirst phase nothing => exact .quiet rfl rfl (by simp only [held, goTo, phase, nothing]; rfl)
  | placed live phase current => exact .quiet rfl rfl (by simp only [held, phase, current]; rfl)
  | placeFull phase current => exact .quiet rfl rfl (by simp only [held, phase, current]; rfl)
  | flushNothing phase nothing => exact .quiet rfl rfl (by simp only [held, goTo, phase, nothing]; rfl)
  | flushEmpty phase current => exact .quiet rfl rfl (by simp only [held, phase, current]; rfl)
  | flushLast phase current => exact .quiet rfl rfl (by simp only [held, phase, current]; rfl)
  | _ => exact .quiet rfl rfl (by simp only [held, goTo, counting, ‹worker.phase = _›])

namespace Storer

variable {assured : Prop} {time : Moment} {storer after : Storer} {pool poolAfter : Pool}
  {files changed : Files}

theorem Moves.empties (step : Moves assured time storer pool files after poolAfter changed)
    (goesOn : after.phase ≠ .finished) :
    Pool.Empties (storer.cancelled = true ∨ ¬ after.IsWell) pool storer.held poolAfter
      after.held := by
  have stopped : storer.cancelled = true → storer.cancelled = true ∨ ¬ after.IsWell := .inl
  cases step with
  | fetching phase kind step =>
    have empties := (step.empties (.inl kind) nofun).mono stopped
    simp only [held, goTo, phase]
    exact empties
  | fetched phase kind step =>
    have empties := (step.empties (.inl kind) nofun).mono stopped
    simp only [held, goTo, phase]
    exact empties
  | ended => exact absurd rfl goesOn
  | fetchFailed phase kind step =>
    have empties := (step.empties (.inl kind) nofun).mono stopped
    simp only [held, goTo, phase]
    exact empties
  | stored phase done =>
    obtain ⟨entries, answer, -, -, rfl⟩ := store_ok done
    exact .quiet rfl rfl (by simp only [held, phase]; rfl)
  | storeFailed phase =>
    exact .drops rfl rfl (Nat.zero_le _) (.inr fun well => well _ rfl)
  | returning phase kind step =>
    have empties := (step.empties (.inr kind) nofun).mono stopped
    simp only [held, goTo, phase]
    exact empties
  | returned phase kind step =>
    simp only [held, goTo, phase]
    cases step with
    | givenBack => exact .givesBack rfl rfl rfl
    | _ => cases kind
  | returnFailed phase kind step =>
    have empties := (step.empties (.inr kind) nofun).mono stopped
    simp only [held, goTo, phase]
    exact empties

/-- Sort-and-store ends by receiving the end of input. -/
theorem Moves.takesEnd (step : Moves assured time storer pool files after poolAfter changed)
    (isOver : after.phase = .finished) :
    pool.fulls.items = .endOfInput :: poolAfter.fulls.items ∧
      poolAfter.empties.items = pool.empties.items := by
  cases step with
  | ended phase kind step =>
    cases step with
    | fetchEnd first => exact ⟨first, rfl⟩
  | stored phase done =>
    obtain ⟨entries, answer, -, -, rfl⟩ := store_ok done
    cases isOver
  | _ => cases isOver

theorem Moves.pool_eq (step : Moves assured time storer pool files after poolAfter changed) :
    poolAfter.empties.capacity = pool.empties.capacity ∧
      poolAfter.fulls.capacity = pool.fulls.capacity ∧ poolAfter.ended = pool.ended := by
  have frame {call : Pool.Call} {progress : Pool.Progress} (kind : call.kind ≠ .signal)
      (step : Pool.Call.Advances pool storer.cancelled call poolAfter progress) :
      poolAfter.empties.capacity = pool.empties.capacity ∧
        poolAfter.fulls.capacity = pool.fulls.capacity ∧ poolAfter.ended = pool.ended :=
    ⟨step.capacity_eq.1, step.capacity_eq.2, step.ended_eq kind⟩
  cases step with
  | fetching _ kind step => exact frame (by rw [kind]; nofun) step
  | fetched _ kind step => exact frame (by rw [kind]; nofun) step
  | ended _ kind step => exact frame (by rw [kind]; nofun) step
  | fetchFailed _ kind step => exact frame (by rw [kind]; nofun) step
  | returning _ kind step => exact frame (by rw [kind]; nofun) step
  | returned _ kind step => exact frame (by rw [kind]; nofun) step
  | returnFailed _ kind step => exact frame (by rw [kind]; nofun) step
  | stored => exact ⟨rfl, rfl, rfl⟩
  | storeFailed => exact ⟨rfl, rfl, rfl⟩

end Storer

theorem Worker.Moves.pool_eq {extraction : Extraction} {worker after : Worker}
    {shared sharedAfter : Shared} (step : Moves extraction worker shared after sharedAfter) :
    sharedAfter.pool.empties.capacity = shared.pool.empties.capacity ∧
      sharedAfter.pool.fulls.capacity = shared.pool.fulls.capacity ∧
      sharedAfter.pool.ended = shared.pool.ended := by
  have frame {call : Pool.Call} {progress : Pool.Progress} (kind : call.kind ≠ .signal)
      (step : Pool.Call.Advances shared.pool worker.cancelled call sharedAfter.pool progress) :
      sharedAfter.pool.empties.capacity = shared.pool.empties.capacity ∧
        sharedAfter.pool.fulls.capacity = shared.pool.fulls.capacity ∧
        sharedAfter.pool.ended = shared.pool.ended :=
    ⟨step.capacity_eq.1, step.capacity_eq.2, step.ended_eq kind⟩
  cases step with
  | acquiring _ kind step => exact frame (by rw [kind]; nofun) step
  | acquired _ kind step => exact frame (by rw [kind]; nofun) step
  | acquireFailed _ kind step => exact frame (by rw [kind]; nofun) step
  | submitting _ kind step => exact frame (by rw [kind]; nofun) step
  | submitted _ kind step => exact frame (by rw [kind]; nofun) step
  | submitFailed _ kind step => exact frame (by rw [kind]; nofun) step
  | givingUp _ kind step =>
    exact frame (by rcases kind with kind | kind <;> rw [kind] <;> nofun) step
  | gaveUp _ kind step =>
    exact frame (by rcases kind with kind | kind <;> rw [kind] <;> nofun) step
  | giveUpFailed _ kind step =>
    exact frame (by rcases kind with kind | kind <;> rw [kind] <;> nofun) step
  | _ => exact ⟨rfl, rfl, rfl⟩

/-! ## The pool of a dump -/

namespace Dump

variable {σ : Type}

/-- The number of buffers that the stages hold. -/
def held (dump : Dump σ) : Nat :=
  total (dump.workers.map Worker.held) + dump.storer.held

/-- Where the buffers of a dump and the end of input are.  The queue of full buffers holds the
buffers `filled` and behind them `marks` ends of input. -/
structure Stocking (job : Job σ) (dump : Dump σ) (filled : List Buffer) (marks : Nat) : Prop where
  capacity : dump.shared.pool.empties.capacity = job.settings.budget.buffers ∧
    dump.shared.pool.fulls.capacity = job.settings.budget.buffers + 1
  fulls : dump.shared.pool.fulls.items =
    filled.map .buffer ++ List.replicate marks .endOfInput
  bound : dump.shared.pool.empties.items.length + filled.length + dump.held ≤
    job.settings.budget.buffers
  kept : dump.IsSmooth → dump.storer.phase ≠ .finished →
    dump.shared.pool.empties.items.length + filled.length + dump.held =
      job.settings.budget.buffers
  isOver : dump.shared.pool.ended = true → ∀ worker ∈ dump.workers, worker.phase = .finished
  single : marks + dump.storer.marks ≤ if dump.shared.pool.ended then 1 else 0
  behind : dump.storer.phase = .finished → filled = []

/-- The end of input is signalled if and only if all workers have been seen to end. -/
structure HasSignalled (dump : Dump σ) (marks : Nat) : Prop where
  called : dump.shared.pool.ended = true → dump.coordinator.workersDone = dump.workers.length
  placed : dump.IsWell → dump.coordinator.workersDone = dump.workers.length →
    marks + dump.storer.marks = 1

/-- How far the coordinator is with signalling the end of input. -/
def Signals (dump : Dump σ) (marks : Nat) : Prop :=
  match dump.coordinator.phase with
  | .signalling .signalEnd => dump.shared.pool.ended = false
  | .signalling _ => dump.shared.pool.ended = true ∧ marks + dump.storer.marks = 0
  | _ => dump.coordinator.IsCalm → dump.HasSignalled marks

variable {job : Job σ} {assured : Prop} {time : Moment} {dump after : Dump σ}
  {files changed : Files} {action : Action} {filled : List Buffer} {marks : Nat}

/-- The queue of full buffers has room left whenever a buffer or the end of input is on its way
there. -/
theorem Stocking.length_le (stocking : dump.Stocking job filled marks) :
    dump.shared.pool.fulls.items.length + dump.held ≤ job.settings.budget.buffers + marks := by
  have bound := stocking.bound
  rw [stocking.fulls, List.length_append, List.length_map, List.length_replicate]
  omega

/-! ### The coordinator's steps -/

theorem Stocking.of_same (stocking : dump.Stocking job filled marks)
    (pool : after.shared.pool = dump.shared.pool) (held : after.held = dump.held)
    (storer : after.storer.phase = dump.storer.phase)
    (isOver : (∀ worker ∈ dump.workers, worker.phase = .finished) →
      ∀ worker ∈ after.workers, worker.phase = .finished)
    (smooth : after.IsSmooth → dump.IsSmooth) : after.Stocking job filled marks := by
  have same : after.storer.marks = dump.storer.marks := by simp only [Storer.marks, storer]
  refine ⟨?_, ?_, ?_, fun still goesOn => ?_, fun ended => ?_, ?_, fun done => ?_⟩
  · rw [pool]
    exact stocking.capacity
  · rw [pool]
    exact stocking.fulls
  · rw [pool, held]
    exact stocking.bound
  · rw [pool, held]
    exact stocking.kept (smooth still) (storer ▸ goesOn)
  · exact isOver (stocking.isOver (pool ▸ ended))
  · rw [pool, same]
    exact stocking.single
  · exact stocking.behind (storer ▸ done)

theorem HasSignalled.of_same {left : Nat} (signalled : dump.HasSignalled marks)
    (pool : after.shared.pool.ended = dump.shared.pool.ended)
    (count : after.coordinator.workersDone = dump.coordinator.workersDone)
    (workers : after.workers.length = dump.workers.length)
    (storer : left + after.storer.marks = marks + dump.storer.marks)
    (well : after.IsWell → dump.IsWell) : after.HasSignalled left := by
  refine ⟨fun ended => ?_, fun still all => ?_⟩
  · rw [count, workers]
    exact signalled.called (pool ▸ ended)
  · rw [storer]
    exact signalled.placed (well still) (count ▸ workers ▸ all)

theorem Signals.of_same {left : Nat} (signals : dump.Signals marks)
    (coordinator : after.coordinator = dump.coordinator)
    (pool : after.shared.pool.ended = dump.shared.pool.ended)
    (workers : after.workers.length = dump.workers.length)
    (storer : left + after.storer.marks = marks + dump.storer.marks)
    (well : after.IsWell → dump.IsWell) : after.Signals left := by
  revert signals
  unfold Signals
  rw [coordinator]
  split
  · exact pool.trans
  · intro signals
    exact ⟨pool.trans signals.1, storer.trans signals.2⟩
  · intro signals calm
    exact (signals calm).of_same pool (congrArg _ coordinator) workers storer well

theorem HasSignalled.waiting (signalled : dump.HasSignalled marks)
    (phase : dump.coordinator.phase = .waiting) : dump.Signals marks := by
  simp only [Signals, phase]
  exact fun _ => signalled

theorem Stocking.join {stage : Stage} (stocking : dump.Stocking job filled marks)
    (step : dump.Joins stage after) : after.Stocking job filled marks := by
  have smooth := step.isSmooth_before
  cases step <;> exact stocking.of_same rfl rfl rfl (fun all => all) smooth

theorem Signals.join {stage : Stage} (signals : dump.Signals marks) (ends : dump.Ends job)
    (knows : dump.coordinator.IsCalm → dump.Knows) (step : dump.Joins stage after) :
    after.Signals marks := by
  have well := step.isWell_before
  cases step with
  | download phase =>
    simp only [Signals, phase, Coordinator.IsCalm, true_implies] at signals
    exact HasSignalled.waiting (signals.of_same rfl rfl rfl rfl well) phase
  | worker phase here there isOver more =>
    have calm : dump.coordinator.IsCalm := by simp only [Coordinator.IsCalm, phase]
    have fewer := (knows calm).lt_of_unseen (List.mem_of_getElem? there) fun seen =>
      seen (by rw [ends.id_eq there]; exact here)
    simp only [Signals, phase, Coordinator.IsCalm, true_implies] at signals
    refine HasSignalled.waiting ⟨fun ended => ?_, fun _ all => absurd all more⟩ phase
    have := signals.called ended
    omega
  | lastWorker phase here there isOver last =>
    have calm : dump.coordinator.IsCalm := by simp only [Coordinator.IsCalm, phase]
    have fewer := (knows calm).lt_of_unseen (List.mem_of_getElem? there) fun seen =>
      seen (by rw [ends.id_eq there]; exact here)
    simp only [Signals, phase, Coordinator.IsCalm, true_implies] at signals
    refine Bool.eq_false_iff.mpr fun ended => ?_
    have := signals.called ended
    omega
  | storer phase =>
    simp only [Signals, phase, Coordinator.IsCalm, true_implies] at signals
    exact fun _ => signals.of_same rfl rfl rfl rfl well
  | badly => exact fun calm => calm.elim
  | late => exact fun calm => calm.elim

/-- Signalling the end of input does not fail. -/
theorem Stocking.signal_ok (stocking : dump.Stocking job filled marks)
    (signals : dump.Signals marks) (ends : dump.Ends job) {call : Pool.Call} {pool : Pool}
    {cause : Error} (phase : dump.coordinator.phase = .signalling call) :
    ¬ Pool.Call.Advances dump.shared.pool false call pool (.answered (.error cause)) := by
  intro advance
  have kind := ends.coordinator
  simp only [Coordinator.IsShaped, phase] at kind
  cases advance with
  | signalTwice ended =>
    simp only [Signals, phase] at signals
    rw [signals] at ended
    cases ended
  | noRoomForEnd full =>
    simp only [Signals, phase] at signals
    have room := stocking.length_le
    rw [stocking.capacity.2] at full
    omega
  | _ => cases kind

theorem Stocking.coordinate (stocking : dump.Stocking job filled marks)
    (signals : dump.Signals marks) (ends : dump.Ends job)
    (knows : dump.coordinator.IsCalm → dump.Knows)
    (step : dump.Coordinates assured time files after changed) :
    ∃ marks, after.Stocking job filled marks ∧ after.Signals marks := by
  have well := step.isWell_before
  have smooth := step.isSmooth_before
  have count := step.workersDone_eq
  cases step with
  | started phase =>
    simp only [Signals, phase, Coordinator.IsCalm, true_implies] at signals
    refine ⟨marks, stocking.of_same rfl rfl rfl (fun all => all) smooth, ?_⟩
    exact HasSignalled.waiting (signals.of_same rfl rfl rfl rfl well) rfl
  | allSeen phase =>
    simp only [Signals, phase, Coordinator.IsCalm, true_implies] at signals
    refine ⟨marks, stocking.of_same rfl rfl rfl (fun all => all) smooth, ?_⟩
    exact fun _ => signals.of_same rfl rfl rfl rfl well
  | closed phase =>
    simp only [Signals, phase, Coordinator.IsCalm, true_implies] at signals
    refine ⟨marks, stocking.of_same rfl rfl rfl (fun all => all) smooth, ?_⟩
    exact fun _ => signals.of_same rfl rfl rfl rfl well
  | signalling phase advance =>
    have calm : dump.coordinator.IsCalm := by simp only [Coordinator.IsCalm, phase]
    have all := (knows calm).next
    simp only [IsAtNext, phase] at all
    have kind := ends.coordinator
    simp only [Coordinator.IsShaped, phase] at kind
    cases advance with
    | signalEnd goingOn =>
      have single := stocking.single
      simp only [goingOn, Bool.false_eq_true, if_false] at single
      refine ⟨marks, ⟨stocking.capacity, stocking.fulls, stocking.bound, ?_, ?_, ?_, stocking.behind⟩,
        rfl, Nat.le_zero.mp single⟩
      · exact fun still => stocking.kept (smooth still)
      · exact fun _ => (knows calm).finished all
      · exact Nat.le_trans single (Nat.zero_le _)
    | _ => cases kind
  | signalled phase advance =>
    have calm : dump.coordinator.IsCalm := by simp only [Coordinator.IsCalm, phase]
    have all := (knows calm).next
    simp only [IsAtNext, phase] at all
    have kind := ends.coordinator
    simp only [Coordinator.IsShaped, phase] at kind
    cases advance with
    | placeEnd room =>
      simp only [Signals, phase] at signals
      obtain ⟨ended, none⟩ := signals
      refine ⟨marks + 1, ⟨stocking.capacity, ?_, stocking.bound, ?_, stocking.isOver, ?_,
        stocking.behind⟩, fun _ => ⟨fun _ => count.trans all, fun _ _ => ?_⟩⟩
      · have fulls := stocking.fulls
        simp only [withPool, withCoordinator, fulls, List.replicate_succ', List.append_assoc]
      · exact fun still => stocking.kept (smooth still)
      · simp only [withPool, withCoordinator, ended, if_true]
        omega
      · simp only [withPool, withCoordinator]
        omega
    | _ => cases kind
  | signalFailed phase advance => exact absurd advance (stocking.signal_ok signals ends phase)
  | draining phase advance =>
    have calm : dump.coordinator.IsCalm := by simp only [Coordinator.IsCalm, phase]
    have seen := (knows calm).next
    simp only [IsAtNext, phase] at seen
    have isOver := (knows calm).storer seen
    have kind := ends.coordinator
    simp only [Coordinator.IsShaped, phase] at kind
    simp only [Signals, phase, Coordinator.IsCalm, true_implies] at signals
    refine ⟨marks, ?_, fun _ => ⟨?_, ?_⟩⟩
    · cases advance with
      | drainFirst first =>
        have bound := stocking.bound
        rw [first, List.length_cons] at bound
        refine ⟨stocking.capacity, stocking.fulls, ?_, ?_, stocking.isOver, stocking.single,
          stocking.behind⟩
        · refine Nat.le_trans ?_ bound
          exact Nat.add_le_add_right (Nat.add_le_add_right (Nat.le_succ _) _) _
        · exact fun _ goesOn => absurd isOver goesOn
      | drained released =>
        refine ⟨stocking.capacity, stocking.fulls, stocking.bound, ?_, stocking.isOver,
          stocking.single, stocking.behind⟩
        exact fun still => stocking.kept (smooth still)
      | _ => cases kind
    · cases advance with
      | drainFirst first => exact signals.called
      | drained released => exact signals.called
      | _ => cases kind
    · exact fun still => signals.placed (well still)
  | drained phase advance =>
    have kind := ends.coordinator
    simp only [Coordinator.IsShaped, phase] at kind
    simp only [Signals, phase, Coordinator.IsCalm, true_implies] at signals
    cases advance with
    | drainDone released =>
      refine ⟨marks, stocking.of_same rfl rfl rfl (fun all => all) smooth, ?_⟩
      exact fun _ => signals.of_same rfl rfl rfl rfl well
    | _ => cases kind
  | drainFailed phase advance =>
    have kind := ends.coordinator
    simp only [Coordinator.IsShaped, phase] at kind
    cases advance <;> cases kind
  | @cancelled _ stage _ phase =>
    refine ⟨marks, stocking.of_same (cancel_shared dump stage ▸ rfl) ?_ ?_ ?_ smooth,
      fun calm => calm.elim⟩
    · have same := map_cancel_workers (f := Worker.held) (fun _ => rfl) dump stage
      simp only [held, withCoordinator, same]
      cases stage <;> rfl
    · cases stage <;> rfl
    · exact fun all => forall_mem_cancel_workers (fun _ isOver => isOver) all stage
  | _ => exact ⟨marks, stocking.of_same rfl rfl rfl (fun all => all) smooth, fun calm => calm.elim⟩

/-! ### The steps of the stages -/

theorem Stocking.worker {id : Nat} {worker worked : Worker} {shared : Shared}
    (stocking : dump.Stocking job filled marks) (ends : dump.Ends job)
    (clear : dump.coordinator.IsCalm → dump.IsClear)
    (here : dump.workers[id]? = some worker)
    (step : Worker.Moves job.extraction worker dump.shared worked shared)
    (smooth : after.IsSmooth → dump.IsSmooth) (pool : after.shared.pool = shared.pool)
    (workers : after.workers = dump.workers.set id worked) (storer : after.storer = dump.storer) :
    ∃ filled, after.Stocking job filled marks := by
  obtain ⟨emptiesCapacity, fullsCapacity, ended⟩ := step.pool_eq
  have exchanged := total_map_set (f := Worker.held) worked here
  have member := List.mem_of_getElem? here
  have goingOn : dump.shared.pool.ended = false := by
    refine Bool.eq_false_iff.mpr fun late => ?_
    exact step.phase_ne_finished (stocking.isOver late worker member)
  have single := stocking.single
  simp only [goingOn, Bool.false_eq_true, if_false] at single
  have unfinished : dump.storer.phase ≠ .finished := fun isOver => by
    simp only [Storer.marks, isOver] at single
    omega
  obtain rfl : marks = 0 := by omega
  have fulls := stocking.fulls
  have bound := stocking.bound
  have kept : dump.IsSmooth → _ := fun still => stocking.kept still unfinished
  rw [List.replicate_zero, List.append_nil] at fulls
  unfold held at bound kept
  -- what is left to say of the buffers after the step
  have build (left : List Buffer) (fullsAfter : shared.pool.fulls.items = left.map .buffer)
      (boundAfter : shared.pool.empties.items.length + left.length +
        (total ((dump.workers.set id worked).map Worker.held) + dump.storer.held) ≤
          job.settings.budget.buffers)
      (keptAfter : after.IsSmooth → shared.pool.empties.items.length + left.length +
        (total ((dump.workers.set id worked).map Worker.held) + dump.storer.held) =
          job.settings.budget.buffers) : after.Stocking job left 0 := by
    refine ⟨?_, ?_, ?_, fun still _ => ?_, fun late => ?_, ?_, fun isOver => ?_⟩
    · rw [pool, emptiesCapacity, fullsCapacity]
      exact stocking.capacity
    · rw [pool, fullsAfter, List.replicate_zero, List.append_nil]
    · rw [held, pool, workers, storer]
      exact boundAfter
    · rw [held, pool, workers, storer]
      exact keptAfter still
    · rw [pool, ended, goingOn] at late
      cases late
    · rw [storer, Storer.marks_eq_zero unfinished]
      exact Nat.zero_le _
    · rw [storer] at isOver
      exact absurd isOver unfinished
  cases step.fills (ends.shaped worker member) with
  | quiet empties fullsSame same =>
    refine ⟨filled, build filled (fullsSame.trans fulls) ?_ fun still => ?_⟩
    · rw [empties]
      omega
    · have := kept (smooth still)
      rw [empties]
      omega
  | takes first fullsSame more =>
    rw [first, List.length_cons] at bound kept
    refine ⟨filled, build filled (fullsSame.trans fulls) ?_ fun still => ?_⟩
    · omega
    · have := kept (smooth still)
      omega
  | @submits buffer last empties less =>
    refine ⟨filled ++ [buffer], build _ ?_ ?_ fun still => ?_⟩
    · rw [last, fulls, List.map_append]
      rfl
    · rw [empties, List.length_append, List.length_singleton]
      omega
    · have := kept (smooth still)
      rw [empties, List.length_append, List.length_singleton]
      omega
  | givesBack last fullsSame less =>
    refine ⟨filled, build filled (fullsSame.trans fulls) ?_ fun still => ?_⟩
    · rw [last, List.length_append, List.length_singleton]
      omega
    · have := kept (smooth still)
      rw [last, List.length_append, List.length_singleton]
      omega
  | drops empties fullsSame less why =>
    refine ⟨filled, build filled (fullsSame.trans fulls) ?_ fun still => ?_⟩
    · rw [empties]
      omega
    · -- nobody is stopped while the dump is smooth
      rcases why with set | late | failed
      · rw [(clear (smooth still).calm).workers worker member] at set
        cases set
      · rw [goingOn] at late
        cases late
      · refine absurd (still.workers worked ?_) failed
        rw [workers]
        exact mem_set_of_getElem? worked here

theorem Stocking.storer {storer : Storer} {pool : Pool}
    (stocking : dump.Stocking job filled marks) (clear : dump.coordinator.IsCalm → dump.IsClear)
    (step : Storer.Moves assured time dump.storer dump.shared.pool files storer pool changed)
    (smooth : ({ dump with storer := storer, shared := { dump.shared with pool := pool } } :
      Dump σ).IsSmooth → dump.IsSmooth) :
    ∃ filled left,
      ({ dump with storer := storer, shared := { dump.shared with pool := pool } } :
        Dump σ).Stocking job filled left ∧
      left + storer.marks = marks + dump.storer.marks := by
  obtain ⟨emptiesCapacity, fullsCapacity, ended⟩ := step.pool_eq
  have unfinished := step.phase_ne_finished
  have none := Storer.marks_eq_zero unfinished
  have fulls := stocking.fulls
  have bound := stocking.bound
  have single := stocking.single
  have kept : dump.IsSmooth → _ := fun still => stocking.kept still unfinished
  unfold held at bound kept
  by_cases isOver : storer.phase = .finished
  · obtain ⟨first, empties⟩ := step.takesEnd isOver
    have one : storer.marks = 1 := by simp only [Storer.marks, isOver]
    have idle : storer.held = 0 := by simp only [Storer.held, isOver]
    cases filled with
    | cons buffer rest =>
      rw [fulls] at first
      cases first
    | nil =>
      cases marks with
      | zero =>
        rw [fulls] at first
        cases first
      | succ more =>
        rw [fulls] at first
        obtain ⟨-, left⟩ := List.cons.inj first
        refine ⟨[], more, ⟨?_, left.symm, ?_, ?_, ?_, ?_, fun _ => rfl⟩, by omega⟩
        · rw [emptiesCapacity, fullsCapacity]
          exact stocking.capacity
        · simp only [held, empties, idle]
          omega
        · exact fun _ goesOn => absurd isOver goesOn
        · exact fun late => stocking.isOver (ended ▸ late)
        · simp only [ended]
          omega
  · have noneAfter := Storer.marks_eq_zero isOver
    have build (left : List Buffer)
        (fullsAfter : pool.fulls.items = left.map .buffer ++ List.replicate marks .endOfInput)
        (boundAfter : pool.empties.items.length + left.length +
          (total (dump.workers.map Worker.held) + storer.held) ≤ job.settings.budget.buffers)
        (keptAfter : ({ dump with storer := storer, shared := { dump.shared with pool := pool } } :
          Dump σ).IsSmooth → pool.empties.items.length + left.length +
            (total (dump.workers.map Worker.held) + storer.held) =
              job.settings.budget.buffers) :
        ({ dump with storer := storer, shared := { dump.shared with pool := pool } } :
          Dump σ).Stocking job left marks := by
      refine ⟨?_, fullsAfter, boundAfter, fun still _ => keptAfter still, fun late => ?_, ?_,
        fun done => absurd done isOver⟩
      · rw [emptiesCapacity, fullsCapacity]
        exact stocking.capacity
      · exact stocking.isOver (ended ▸ late)
      · simp only [ended]
        omega
    refine Exists.imp (fun left stocked => ⟨marks, stocked, by omega⟩) ?_
    cases step.empties isOver with
    | quiet empties fullsSame same =>
      refine ⟨filled, build filled (fullsSame.trans fulls) ?_ fun still => ?_⟩
      · rw [empties]
        omega
      · have := kept (smooth still)
        rw [empties]
        omega
    | @takes buffer first empties more =>
      cases filled with
      | nil =>
        rw [fulls] at first
        cases marks <;> cases first
      | cons next rest =>
        rw [fulls] at first
        obtain ⟨-, left⟩ := List.cons.inj first
        rw [List.length_cons] at bound kept
        refine ⟨rest, build rest left.symm ?_ fun still => ?_⟩
        · rw [empties]
          omega
        · have := kept (smooth still)
          rw [empties]
          omega
    | givesBack last fullsSame less =>
      refine ⟨filled, build filled (fullsSame.trans fulls) ?_ fun still => ?_⟩
      · rw [last, List.length_append, List.length_singleton]
        omega
      · have := kept (smooth still)
        rw [last, List.length_append, List.length_singleton]
        omega
    | drops empties fullsSame less why =>
      refine ⟨filled, build filled (fullsSame.trans fulls) ?_ fun still => ?_⟩
      · rw [empties]
        omega
      · rcases why with set | failed
        · rw [(clear (smooth still).calm).storer] at set
          cases set
        · exact absurd still.storer failed

/-! ### All steps -/

theorem stocking_start (job : Job σ) (writer : Store.Writer) (time : Moment) :
    (start job writer time).Stocking job [] 0 := by
  have held : (start job writer time).held = 0 := by
    rw [Dump.held, total_workers_start job writer time fun _ => rfl]
    rfl
  have length : (start job writer time).shared.pool.empties.items.length =
      job.settings.budget.buffers := (List.length_map _).trans List.length_range
  refine ⟨⟨rfl, rfl⟩, rfl, ?_, fun _ _ => ?_, nofun, Nat.le_refl 0, nofun⟩
  · rw [held, length]
    exact Nat.le_refl _
  · rw [held, length]
    rfl

theorem signals_start {job : Job σ} (workers : 0 < job.settings.workers) (writer : Store.Writer)
    (time : Moment) : (start job writer time).Signals 0 := by
  have length : (start job writer time).workers.length = job.settings.workers :=
    (List.length_map _).trans List.length_range
  refine fun _ => ⟨nofun, fun _ all => ?_⟩
  rw [length] at all
  exact absurd all (Nat.ne_of_lt workers)

variable [RecordSource σ]

theorem Stocking.move (stocking : dump.Stocking job filled marks) (signals : dump.Signals marks)
    (ends : dump.Ends job) (clear : dump.coordinator.IsCalm → dump.IsClear)
    (knows : dump.coordinator.IsCalm → dump.Knows)
    (step : Moves job assured time dump files action after changed) :
    ∃ filled marks, after.Stocking job filled marks ∧ after.Signals marks := by
  have well := step.isWell_before
  have smooth := step.isSmooth_before
  cases step with
  | download step =>
    exact ⟨filled, marks, stocking.of_same rfl rfl rfl (fun all => all) smooth,
      signals.of_same rfl rfl rfl rfl well⟩
  | worker here step =>
    obtain ⟨left, stocked⟩ := stocking.worker ends clear here step smooth rfl rfl rfl
    exact ⟨left, marks, stocked,
      signals.of_same rfl step.pool_eq.2.2 List.length_set rfl well⟩
  | storer step =>
    obtain ⟨rest, left, stocked, sum⟩ := stocking.storer clear step smooth
    exact ⟨rest, left, stocked, signals.of_same rfl step.pool_eq.2.2 rfl sum well⟩
  | join step => exact ⟨filled, marks, stocking.join step, signals.join ends knows step⟩
  | coordinate step =>
    obtain ⟨left, both⟩ := stocking.coordinate signals ends knows step
    exact ⟨filled, left, both⟩

end Dump

variable {σ : Type} [RecordSource σ] {job : Job σ} {assured : Prop} {files₀ : Files}
  {actions : List Action} {log : List (Nat × Record)} {world : World σ}

/-- In every world that is reached the buffers and the end of input are where they belong. -/
theorem Job.Reaches.stocking (workers : 0 < job.settings.workers)
    (reached : job.Reaches assured files₀ actions log world) :
    ∃ filled marks, world.dump.Stocking job filled marks ∧ world.dump.Signals marks := by
  induction reached using Job.Reaches.rec_moves with
  | opened time started opens =>
    exact ⟨[], 0, Dump.stocking_start job _ started, Dump.signals_start workers _ started⟩
  | move before _ step ih =>
    obtain ⟨filled, marks, stocking, signals⟩ := ih
    exact stocking.move signals before.ends before.isClear before.knows step

end TreeExport

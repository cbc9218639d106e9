import TreeExport.Proofs.Dump.Progress

/-!
# Stages whose token is set

A stage looks at its token whenever it begins an operation on a queue, and then waits for the queue
and for the token at the same time.  So a stage whose token is set can at most carry out the one
operation that it was waiting for; any other that it begins ends at once and leaves the queue as it
is, however ready that is (`Dump.Moves.obeys`).  And such a stage never waits: there always is a
step that it can take (`Dump.exists_enables_of_cancelled`).
-/

namespace TreeExport

/-- What a step of a stage whose token is set does with the operation on a queue that the stage is
at before and after it: the stage does not begin to wait, touches a queue only if it was waiting for
it, and is stopped if it was about to begin, or was stopped before. -/
structure Obeys (before after : Option Attempt) (untouched wasStopped isStopped : Prop) : Prop where
  prompt : after ≠ some .wait
  quiet : before ≠ some .wait → untouched
  stops : before = some .check ∨ wasStopped → isStopped

theorem Obeys.mono {before after attempt next : Option Attempt}
    {untouched wasStopped isStopped same stopped stops : Prop}
    (obeys : Obeys before after untouched wasStopped isStopped) (now : attempt = before)
    (later : after ≠ some .wait → next ≠ some .wait) (quiet : untouched → same)
    (was : stopped → wasStopped) (is : isStopped → stops) :
    Obeys attempt next same stopped stops := by
  subst now
  exact ⟨later obeys.prompt, fun other => quiet (obeys.quiet other),
    fun begins => is (obeys.stops (begins.imp_right was))⟩

/-! ## Operations on the pool -/

namespace Pool

/-- How far an operation on the pool has got with a queue, if it is at one that a token can
interrupt. -/
def Call.attempt? : Call → Option Attempt
  | takeEmpty attempt => some attempt
  | offerFull _ attempt => some attempt
  | takeFull attempt => some attempt
  | offerEmpty _ attempt => some attempt
  | _ => none

/-- The operation was stopped and only the counts are left to be corrected. -/
def Call.IsStopped (call : Call) : Prop :=
  call = .recountHeld .cancelled ∨ call = .reclaimHeld .cancelled

/-- How far the operation has got, if it goes on. -/
def Progress.attempt? : Progress → Option Attempt
  | .going call => call.attempt?
  | .answered _ => none

/-- The operation was stopped, and is over or is about to be. -/
def Progress.IsStopped : Progress → Prop
  | .going call => call.IsStopped
  | .answered outcome => outcome = .error .cancelled

/-- What is in the queues. -/
def items (pool : Pool) : List Buffer × List FullItem :=
  (pool.empties.items, pool.fulls.items)

variable {pool after : Pool} {call : Call} {progress : Progress}

theorem Call.Advances.obeys (step : Advances pool true call after progress)
    (kind : call.kind ≠ .signal ∧ call.kind ≠ .drain) :
    Obeys call.attempt? progress.attempt? (after.items = pool.items) call.IsStopped
      progress.IsStopped := by
  have idle {attempt : Attempt} {wasStopped : Prop} (waits : attempt = .wait) (never : ¬ wasStopped)
      {untouched isStopped : Prop} : Obeys (some attempt) none untouched wasStopped isStopped := by
    subst waits
    refine ⟨by rintro ⟨⟩, fun other => absurd rfl other, ?_⟩
    rintro (other | stopped)
    · cases other
    · exact absurd stopped never
  cases step with
  | acquireStopped set => exact ⟨by rintro ⟨⟩, fun _ => rfl, fun _ => rfl⟩
  | fetchStopped set => exact ⟨by rintro ⟨⟩, fun _ => rfl, fun _ => rfl⟩
  | submitStopped buffer set => exact ⟨by rintro ⟨⟩, fun _ => rfl, fun _ => .inl rfl⟩
  | giveBackStopped buffer set => exact ⟨by rintro ⟨⟩, fun _ => rfl, fun _ => .inr rfl⟩
  | acquireReady clear | submitReady buffer clear | fetchReady clear
  | giveBackReady buffer clear => cases clear
  | acquireFirst | submitted | fetchFirst | fetchEnd | givenBack =>
    exact idle rfl (by rintro (⟨⟨⟩⟩ | ⟨⟨⟩⟩))
  | recountHeld cause =>
    refine ⟨by rintro ⟨⟩, fun _ => rfl, ?_⟩
    rintro (⟨⟨⟩⟩ | ⟨⟨⟩⟩ | ⟨⟨⟩⟩)
    rfl
  | reclaimHeld cause =>
    refine ⟨by rintro ⟨⟩, fun _ => rfl, ?_⟩
    rintro (⟨⟨⟩⟩ | ⟨⟨⟩⟩ | ⟨⟨⟩⟩)
    rfl
  | signalTwice | signalEnd | placeEnd | noRoomForEnd => exact absurd rfl kind.1
  | drainFirst | drainDone | drained => exact absurd rfl kind.2
  | _ =>
    refine ⟨by rintro ⟨⟩, fun _ => rfl, ?_⟩
    rintro (⟨⟨⟩⟩ | ⟨⟨⟩⟩ | ⟨⟨⟩⟩)

/-- An operation of a stage whose token is set never waits. -/
theorem Call.advance_isSome_of_cancelled (pool : Pool) (call : Call) :
    (call.advance pool true .token).isSome := by
  cases call with
  | takeEmpty attempt => cases attempt <;> rfl
  | offerFull buffer attempt => cases attempt <;> rfl
  | takeFull attempt => cases attempt <;> rfl
  | offerEmpty buffer attempt => cases attempt <;> rfl
  | signalEnd =>
    simp only [advance]
    split <;> rfl
  | placeEnd =>
    simp only [advance]
    split <;> rfl
  | drain =>
    simp only [advance]
    split <;> rfl
  | _ => rfl

end Pool

/-! ## The stages -/

theorem Queue.send_token {α : Type} (queue : Queue α) (item : α) (attempt : Attempt) :
    (queue.send item true .token attempt).isSome := by
  cases attempt <;> rfl

theorem Queue.receive_token {α : Type} (queue : Queue α) (attempt : Attempt) :
    (queue.receive true .token attempt).isSome := by
  cases attempt <;> rfl

namespace Download

variable {σ : Type}

/-- How far the download has got with the raw queue, if it is sending. -/
def attempt? (download : Download σ) : Option Attempt :=
  match download.phase with
  | .sending _ attempt => some attempt
  | .ending attempt => some attempt
  | _ => none

/-- The download was stopped. -/
def IsStopped (download : Download σ) : Prop :=
  download.phase = .failed .cancelled

variable [RecordSource σ] {request : BatchRequest} {download after : Download σ}
  {raw rawAfter : Queue RawItem}

theorem Moves.obeys (step : Moves request download raw after rawAfter)
    (set : download.cancelled = true) :
    Obeys download.attempt? after.attempt? (rawAfter.items = raw.items) download.IsStopped
      after.IsStopped := by
  have running : ¬ download.IsStopped := by
    intro stopped
    have runs := step.ends.1
    rw [outcome?, stopped] at runs
    cases runs
  have quiet (prompt : after.attempt? ≠ some .wait) (same : rawAfter.items = raw.items)
      (busy : download.attempt? ≠ some .check) :
      Obeys download.attempt? after.attempt? (rawAfter.items = raw.items) download.IsStopped
        after.IsStopped :=
    ⟨prompt, fun _ => same, fun stopped => (stopped.elim busy running).elim⟩
  have none (idle : download.attempt? = .none) : download.attempt? ≠ some .check := by
    rw [idle]
    rintro ⟨⟩
  have carried (prompt : after.attempt? ≠ some .wait) (waits : download.attempt? = some .wait) :
      Obeys download.attempt? after.attempt? (rawAfter.items = raw.items) download.IsStopped
        after.IsStopped := by
    refine ⟨prompt, fun other => absurd waits other, fun stopped => ?_⟩
    rcases stopped with begins | stopped
    · cases waits.symm.trans begins
    · exact absurd stopped running
  have cleared {attempt : Prop} (clear : download.cancelled = false) : attempt := by
    rw [set] at clear
    cases clear
  cases step with
  | checkStopped phase => exact ⟨by rintro ⟨⟩, fun _ => rfl, fun _ => rfl⟩
  | sendStopped phase => exact ⟨by rintro ⟨⟩, fun _ => rfl, fun _ => rfl⟩
  | endStopped phase => exact ⟨by rintro ⟨⟩, fun _ => rfl, fun _ => rfl⟩
  | checked phase clear => exact cleared clear
  | sendReady phase clear => exact cleared clear
  | endReady phase clear => exact cleared clear
  | sent phase => exact carried (by rintro ⟨⟩) (by simp only [attempt?, phase])
  | ended phase => exact carried (by rintro ⟨⟩) (by simp only [attempt?, phase])
  | _ => exact quiet (by rintro ⟨⟩) rfl (none (by simp only [attempt?, ‹download.phase = _›]))

theorem step?_isSome_of_cancelled (runs : download.outcome? = none)
    (set : download.cancelled = true) : (download.step? request .token raw).isSome := by
  unfold step?
  cases phase : download.phase with
  | checking => rfl
  | asking => rfl
  | sending batch attempt =>
    rw [Option.isSome_map, set]
    exact raw.send_token _ attempt
  | ending attempt =>
    rw [Option.isSome_map, set]
    exact raw.send_token _ attempt
  | finished =>
    simp only [outcome?, phase] at runs
    cases runs
  | failed cause =>
    simp only [outcome?, phase] at runs
    cases runs

end Download

/-- What is in the queues. -/
def Shared.items (shared : Shared) : List RawItem × List Buffer × List FullItem :=
  (shared.raw.items, shared.pool.items)

namespace Worker

/-- How far the worker has got with a queue, if it is at an operation on one. -/
def attempt? (worker : Worker) : Option Attempt :=
  match worker.phase with
  | .receiving attempt => some attempt
  | .forwarding attempt => some attempt
  | _ => worker.call?.bind Pool.Call.attempt?

/-- The worker was stopped. -/
def IsStopped (worker : Worker) : Prop :=
  worker.phase = .failed .cancelled ∨ ∃ call, worker.call? = some call ∧ call.IsStopped

variable {extraction : Extraction} {worker after : Worker} {shared sharedAfter : Shared}

theorem attempt?_of_call {call : Pool.Call} (busy : worker.call? = some call) :
    worker.attempt? = call.attempt? := by
  cases phase : worker.phase with
  | acquiring | submitting | givingUp =>
    simp only [call?, phase] at busy
    cases busy
    simp only [attempt?, call?, phase]
    rfl
  | _ =>
    simp only [call?, phase] at busy
    cases busy

theorem Moves.obeys (step : Moves extraction worker shared after sharedAfter)
    (set : worker.cancelled = true) :
    Obeys worker.attempt? after.attempt? (sharedAfter.items = shared.items) worker.IsStopped
      after.IsStopped := by
  have running (stopped : worker.IsStopped) :
      ∃ call, worker.call? = some call ∧ call.IsStopped := by
    refine stopped.resolve_left fun failed => ?_
    have runs := step.ends.1
    rw [outcome?, failed] at runs
    cases runs
  -- what a step of an operation on the pool says of the worker that is at it
  have calls {call : Pool.Call} {progress : Pool.Progress} {pool : Pool}
      (busy : worker.call? = some call)
      (kind : call.kind = .acquire ∨ call.kind = .submit ∨ call.kind = .giveBack)
      (advance : Pool.Call.Advances shared.pool worker.cancelled call pool progress)
      (same : sharedAfter = { shared with pool := pool })
      (prompt : progress.attempt? ≠ some .wait → after.attempt? ≠ some .wait)
      (stops : progress.IsStopped → after.IsStopped) :
      Obeys worker.attempt? after.attempt? (sharedAfter.items = shared.items) worker.IsStopped
        after.IsStopped := by
    rw [set] at advance
    have other : call.kind ≠ .signal ∧ call.kind ≠ .drain := by
      rcases kind with kind | kind | kind <;> rw [kind] <;> decide
    refine (advance.obeys other).mono (attempt?_of_call busy) prompt (fun items => ?_)
      (fun stopped => ?_) stops
    · rw [same]
      exact congrArg (Prod.mk _) items
    · obtain ⟨found, there, stopped⟩ := running stopped
      cases busy.symm.trans there
      exact stopped
  have quiet (none : worker.call? = .none) (begins : worker.attempt? ≠ some .check)
      (prompt : after.attempt? ≠ some .wait)
      (same : worker.attempt? ≠ some .wait → sharedAfter.items = shared.items) :
      Obeys worker.attempt? after.attempt? (sharedAfter.items = shared.items) worker.IsStopped
        after.IsStopped := by
    refine ⟨prompt, same, fun stopped => ?_⟩
    obtain ⟨call, busy, -⟩ := running (stopped.resolve_left begins)
    cases none.symm.trans busy
  have cleared {anything : Prop} (clear : worker.cancelled = false) : anything := by
    rw [set] at clear
    cases clear
  cases step with
  | receiveStopped phase => exact ⟨by rintro ⟨⟩, fun _ => rfl, fun _ => .inl rfl⟩
  | forwardStopped phase => exact ⟨by rintro ⟨⟩, fun _ => rfl, fun _ => .inl rfl⟩
  | receiveReady phase clear => exact cleared clear
  | forwardReady phase clear => exact cleared clear
  | received phase | receivedEnd phase | forwarded phase =>
    have waits : worker.attempt? = some .wait := by simp only [attempt?, phase]
    refine quiet (by simp only [call?, phase]) ?_ (by rintro ⟨⟩) fun other => absurd waits other
    rw [waits]
    rintro ⟨⟩
  | acquiring phase kind advance =>
    exact calls (by simp only [call?, phase]) (.inl kind) advance rfl (fun prompt => prompt)
      fun stopped => .inr ⟨_, rfl, stopped⟩
  | submitting phase kind advance =>
    exact calls (by simp only [call?, phase]) (.inr (.inl kind)) advance rfl (fun prompt => prompt)
      fun stopped => .inr ⟨_, rfl, stopped⟩
  | givingUp phase kind advance =>
    exact calls (by simp only [call?, phase]) (.inr kind) advance rfl (fun prompt => prompt)
      fun stopped => .inr ⟨_, rfl, stopped⟩
  | acquired phase kind advance =>
    exact calls (by simp only [call?, phase]) (.inl kind) advance rfl (fun prompt => prompt)
      (by rintro ⟨⟩)
  | submitted phase kind advance =>
    exact calls (by simp only [call?, phase]) (.inr (.inl kind)) advance rfl (fun prompt => prompt)
      (by rintro ⟨⟩)
  | gaveUp phase kind advance =>
    exact calls (by simp only [call?, phase]) (.inr kind) advance rfl (fun prompt => prompt)
      (by rintro ⟨⟩)
  | acquireFailed phase kind advance =>
    exact calls (by simp only [call?, phase]) (.inl kind) advance rfl (fun prompt => prompt)
      (by rintro ⟨⟩; exact .inl rfl)
  | submitFailed phase kind advance =>
    exact calls (by simp only [call?, phase]) (.inr (.inl kind)) advance rfl (fun prompt => prompt)
      (by rintro ⟨⟩; exact .inl rfl)
  | giveUpFailed phase kind advance =>
    exact calls (by simp only [call?, phase]) (.inr kind) advance rfl (fun prompt => prompt)
      (by rintro ⟨⟩; exact .inl rfl)
  | _ =>
    refine quiet (by simp only [call?, ‹worker.phase = _›]) ?_ (by rintro ⟨⟩) fun _ => rfl
    simp only [attempt?, call?, ‹worker.phase = _›]
    rintro ⟨⟩

theorem step?_isSome_of_cancelled (runs : worker.outcome? = none)
    (set : worker.cancelled = true) : (worker.step? extraction .token shared).isSome := by
  unfold step?
  cases phase : worker.phase with
  | receiving attempt =>
    rw [Option.isSome_map, set]
    exact shared.raw.receive_token attempt
  | processing left => cases left <;> rfl
  | placing path payload rest => rfl
  | acquiring call path payload rest | submitting call path payload rest | givingUp call =>
    simp only [callStep, Option.isSome_map, set]
    exact call.advance_isSome_of_cancelled shared.pool
  | forwarding attempt =>
    rw [Option.isSome_map, set]
    exact shared.raw.send_token _ attempt
  | flushing => rfl
  | finished =>
    simp only [outcome?, phase] at runs
    cases runs
  | failed cause =>
    simp only [outcome?, phase] at runs
    cases runs

end Worker

namespace Storer

/-- How far sort-and-store has got with a queue, if it is at an operation on one. -/
def attempt? (storer : Storer) : Option Attempt :=
  storer.call?.bind Pool.Call.attempt?

/-- Sort-and-store was stopped. -/
def IsStopped (storer : Storer) : Prop :=
  storer.phase = .failed .cancelled ∨ ∃ call, storer.call? = some call ∧ call.IsStopped

variable {assured : Prop} {time : Moment} {storer after : Storer} {pool poolAfter : Pool}
  {files changed : Files}

theorem Moves.obeys (step : Moves assured time storer pool files after poolAfter changed)
    (set : storer.cancelled = true) :
    Obeys storer.attempt? after.attempt? (poolAfter.items = pool.items) storer.IsStopped
      after.IsStopped := by
  have running (stopped : storer.IsStopped) :
      ∃ call, storer.call? = some call ∧ call.IsStopped := by
    refine stopped.resolve_left fun failed => ?_
    have runs := step.ends.1
    rw [outcome?, failed] at runs
    cases runs
  have calls {call : Pool.Call} {progress : Pool.Progress} (busy : storer.call? = some call)
      (kind : call.kind = .fetch ∨ call.kind = .giveBack)
      (advance : Pool.Call.Advances pool storer.cancelled call poolAfter progress)
      (prompt : progress.attempt? ≠ some .wait → after.attempt? ≠ some .wait)
      (stops : progress.IsStopped → after.IsStopped) :
      Obeys storer.attempt? after.attempt? (poolAfter.items = pool.items) storer.IsStopped
        after.IsStopped := by
    rw [set] at advance
    have other : call.kind ≠ .signal ∧ call.kind ≠ .drain := by
      rcases kind with kind | kind <;> rw [kind] <;> decide
    have attempt : storer.attempt? = call.attempt? := by
      rw [attempt?, busy]
      rfl
    refine (advance.obeys other).mono attempt prompt (fun items => items) (fun stopped => ?_) stops
    obtain ⟨found, there, stopped⟩ := running stopped
    cases busy.symm.trans there
    exact stopped
  have quiet (none : storer.call? = .none) (prompt : after.attempt? ≠ some .wait)
      (same : poolAfter.items = pool.items) :
      Obeys storer.attempt? after.attempt? (poolAfter.items = pool.items) storer.IsStopped
        after.IsStopped := by
    refine ⟨prompt, fun _ => same, fun stopped => ?_⟩
    rcases stopped with begins | stopped
    · rw [attempt?, none] at begins
      cases begins
    · obtain ⟨call, busy, -⟩ := running stopped
      cases none.symm.trans busy
  cases step with
  | fetching phase kind advance =>
    exact calls (call?_of_acquiring phase) (.inl kind) advance (fun prompt => prompt)
      fun stopped => .inr ⟨_, rfl, stopped⟩
  | fetched phase kind advance =>
    exact calls (call?_of_acquiring phase) (.inl kind) advance (fun prompt => prompt) (by rintro ⟨⟩)
  | ended phase kind advance =>
    exact calls (call?_of_acquiring phase) (.inl kind) advance (fun prompt => prompt) (by rintro ⟨⟩)
  | fetchFailed phase kind advance =>
    exact calls (call?_of_acquiring phase) (.inl kind) advance (fun prompt => prompt)
      (by rintro ⟨⟩; exact .inl rfl)
  | stored phase done =>
    obtain ⟨entries, answer, -, -, rfl⟩ := store_ok done
    exact quiet (by simp only [call?, phase]) (by rintro ⟨⟩) rfl
  | storeFailed phase => exact quiet (by simp only [call?, phase]) (by rintro ⟨⟩) rfl
  | returning phase kind advance =>
    exact calls (call?_of_returning phase) (.inr kind) advance (fun prompt => prompt)
      fun stopped => .inr ⟨_, rfl, stopped⟩
  | returned phase kind advance =>
    exact calls (call?_of_returning phase) (.inr kind) advance (fun _ => by rintro ⟨⟩)
      (by rintro ⟨⟩)
  | returnFailed phase kind advance =>
    exact calls (call?_of_returning phase) (.inr kind) advance (fun prompt => prompt)
      (by rintro ⟨⟩; exact .inl rfl)

theorem step?_isSome_of_cancelled (runs : storer.outcome? = none)
    (set : storer.cancelled = true) : (storer.step? .token pool).isSome := by
  unfold step?
  cases phase : storer.phase with
  | acquiring call | returning call =>
    simp only [callStep, Option.isSome_map, set]
    exact call.advance_isSome_of_cancelled pool
  | storing buffer => rfl
  | finished =>
    simp only [outcome?, phase] at runs
    cases runs
  | failed cause =>
    simp only [outcome?, phase] at runs
    cases runs

end Storer

/-! ## The dump -/

/-- The stage that takes a step, if it is one. -/
def Action.stage? : Action → Option Stage
  | .download _ => some .download
  | .worker id _ => some (.transform id)
  | .storer _ => some .sortAndStore
  | .join _ => none
  | .coordinate => none

namespace Dump

variable {σ : Type}

/-- The token of a stage is set. -/
def isCancelled (dump : Dump σ) : Stage → Bool
  | .download => dump.download.cancelled
  | .transform id => dump.workers[id]?.any Worker.cancelled
  | .sortAndStore => dump.storer.cancelled

/-- How far a stage has got with a queue, if it is at an operation on one. -/
def attempt? (dump : Dump σ) : Stage → Option Attempt
  | .download => dump.download.attempt?
  | .transform id => dump.workers[id]?.bind Worker.attempt?
  | .sortAndStore => dump.storer.attempt?

/-- A stage was stopped. -/
def IsStopped (dump : Dump σ) : Stage → Prop
  | .download => dump.download.IsStopped
  | .transform id => ∃ worker, dump.workers[id]? = some worker ∧ worker.IsStopped
  | .sortAndStore => dump.storer.IsStopped

/-- What is in the queues. -/
def items (dump : Dump σ) : List RawItem × List Buffer × List FullItem :=
  dump.shared.items

variable {job : Job σ} {assured : Prop} {time : Moment} {dump after : Dump σ}
  {files changed : Files} {action : Action} {stage : Stage}

theorem isCancelled_withCoordinator (dump : Dump σ) (coordinator : Coordinator) (stage : Stage) :
    (dump.withCoordinator coordinator).isCancelled stage = dump.isCancelled stage := by
  cases stage <;> rfl

theorem getElem?_cancel (dump : Dump σ) (other : Stage) (id : Nat) :
    (dump.cancel other).workers[id]? = dump.workers[id]?.map fun worker =>
      { worker with cancelled := worker.cancelled || other == .transform id } := by
  cases here : dump.workers[id]? with
  | none =>
    cases other with
    | transform number =>
      simp only [cancel, List.getElem?_modify, here, Option.map_eq_map, Option.map_none]
    | _ => exact here
  | some worker =>
    cases other with
    | transform number =>
      simp only [cancel, List.getElem?_modify, here, Option.map_eq_map, Option.map_some]
      by_cases same : number = id
      · rw [if_pos same, same, beq_self_eq_true, Bool.or_true]
      · have apart : (Stage.transform number == Stage.transform id) = false :=
          beq_eq_false_iff_ne.mpr fun equal => same (Stage.transform.inj equal)
        rw [if_neg same, apart, Bool.or_false]
    | _ =>
      rw [Option.map_some, beq_eq_false_iff_ne.mpr (by rintro ⟨⟩), Bool.or_false]
      exact here

/-- Setting a token sets no other. -/
theorem isCancelled_cancel_iff {other : Stage}
    (within : ∀ id, other = .transform id → id < dump.workers.length) :
    (dump.cancel other).isCancelled stage = true ↔ dump.isCancelled stage = true ∨ stage = other := by
  cases stage with
  | transform id =>
    simp only [isCancelled, getElem?_cancel, Option.any_map]
    cases here : dump.workers[id]? with
    | none =>
      have beyond : other ≠ .transform id := fun same =>
        absurd (List.getElem?_eq_none_iff.mp here) (Nat.not_le.mpr (within id same))
      simp only [Option.any_none, Bool.false_eq_true, false_or, false_iff]
      exact fun same => beyond same.symm
    | some worker =>
      simp only [Option.any_some, Bool.or_eq_true, beq_iff_eq]
      exact or_congr_right eq_comm
  | download => cases other <;> simp [isCancelled, cancel]
  | sortAndStore => cases other <;> simp [isCancelled, cancel]

theorem isCancelled_cancel (other : Stage) (set : dump.isCancelled stage = true) :
    (dump.cancel other).isCancelled stage = true := by
  cases stage with
  | transform id =>
    simp only [isCancelled, getElem?_cancel, Option.any_map] at set ⊢
    obtain ⟨worker, here, set⟩ := (Option.any_eq_true ..).mp set
    rw [here, Option.any_some, set, Bool.true_or]
  | download => cases other <;> first | exact set | rfl
  | sortAndStore => cases other <;> first | exact set | rfl

theorem outcome?_cancel (dump : Dump σ) (other stage : Stage) :
    (dump.cancel other).outcome? stage = dump.outcome? stage := by
  cases stage with
  | transform id =>
    rw [outcome?, getElem?_cancel, outcome?]
    cases dump.workers[id]? <;> rfl
  | _ => cases other <;> rfl

variable [RecordSource σ]

/-- Only the coordinator sets tokens. -/
theorem Moves.isCancelled_eq (step : Moves job assured time dump files action after changed)
    (other : action ≠ .coordinate) : after.isCancelled stage = dump.isCancelled stage := by
  cases step with
  | download step =>
    cases stage with
    | download => exact step.ends.2.1
    | _ => rfl
  | @worker id _ _ worked _ here step =>
    cases stage with
    | transform number =>
      by_cases same : id = number
      · subst same
        have within := (List.getElem?_eq_some_iff.mp here).1
        simp only [Dump.isCancelled, here, List.getElem?_set_self within, Option.any_some]
        exact step.ends.2.2.1
      · simp only [Dump.isCancelled, List.getElem?_set_ne same]
    | _ => rfl
  | storer step =>
    cases stage with
    | sortAndStore => exact step.ends.2
    | _ => rfl
  | join step => cases step <;> rfl
  | coordinate step => exact absurd rfl other

/-- No step clears a token. -/
theorem Moves.isCancelled (step : Moves job assured time dump files action after changed)
    (set : dump.isCancelled stage = true) : after.isCancelled stage = true := by
  by_cases mine : action = .coordinate
  · subst mine
    cases step with
    | coordinate step =>
      cases step with
      | @cancelled _ cancelled _ phase => exact isCancelled_cancel cancelled set
      | _ => exact set
  · exact (step.isCancelled_eq mine).trans set

/-- What a step of a stage does whose token is set. -/
theorem Moves.obeys (step : Moves job assured time dump files action after changed)
    (mine : action.stage? = some stage) (set : dump.isCancelled stage = true) :
    Obeys (dump.attempt? stage) (after.attempt? stage) (after.items = dump.items)
      (dump.IsStopped stage) (after.IsStopped stage) := by
  cases step with
  | download step =>
    cases mine
    refine (step.obeys set).mono rfl (fun prompt => prompt) (fun same => ?_) (fun stopped => stopped)
      fun stopped => stopped
    exact congrArg (fun raw => (raw, _)) ((leaveRaw_items _ _ _).trans same)
  | @worker id _ worker worked _ here step =>
    cases mine
    have within := (List.getElem?_eq_some_iff.mp here).1
    have there : (dump.workers.set id worked)[id]? = some worked := List.getElem?_set_self within
    simp only [Dump.isCancelled, here, Option.any_some] at set
    have now : dump.attempt? (.transform id) = worker.attempt? := by
      simp only [attempt?, here, Option.bind_some]
    refine (step.obeys set).mono now (fun prompt => ?_) (fun same => ?_) (fun stopped => ?_)
      fun stopped => ⟨worked, there, stopped⟩
    · simp only [attempt?, there, Option.bind_some]
      exact prompt
    · refine Eq.trans ?_ same
      exact congrArg (fun raw => (raw, _)) (leaveRaw_items _ _ _)
    · obtain ⟨other, found, stopped⟩ := stopped
      cases here.symm.trans found
      exact stopped
  | storer step =>
    cases mine
    refine (step.obeys set).mono rfl (fun prompt => prompt) (fun same => ?_) (fun stopped => stopped)
      fun stopped => stopped
    exact congrArg (Prod.mk _) same
  | join step => cases mine
  | coordinate step => cases mine

/-- A stage whose token is set and that is not over can take a step, whatever the queues hold. -/
theorem exists_enables_of_cancelled (set : dump.isCancelled stage = true)
    (runs : dump.outcome? stage = none) :
    ∃ action, action.stage? = some stage ∧ dump.Enables job action := by
  cases stage with
  | download =>
    refine ⟨.download .token, rfl, ?_⟩
    simp only [Enables, step?, Option.isSome_map]
    exact Download.step?_isSome_of_cancelled runs set
  | transform id =>
    refine ⟨.worker id .token, rfl, ?_⟩
    obtain ⟨worker, here, set⟩ := (Option.any_eq_true ..).mp set
    simp only [outcome?, here, Option.bind_some] at runs
    simp only [Enables, step?, here, Option.bind_some, Option.isSome_map]
    exact Worker.step?_isSome_of_cancelled runs set
  | sortAndStore =>
    refine ⟨.storer .token, rfl, ?_⟩
    simp only [Enables, step?, Option.isSome_map]
    exact Storer.step?_isSome_of_cancelled runs set

end Dump

end TreeExport

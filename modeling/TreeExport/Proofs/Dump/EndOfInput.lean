import Mathlib.Data.List.Count
import TreeExport.Proofs.Dump.Announcing
import TreeExport.Proofs.Dump.Completion
import TreeExport.Proofs.Dump.Turns

/-!
# The end of input

The end of input is put into the queue of full buffers once at most, behind all buffers, and only
after all workers have ended well, have submitted all that they set out to submit, and have been
seen to end.  Sort-and-store ends well only by it, and then it has stored all that was put before
it (`Job.Announces.announced_once`).
-/

namespace TreeExport

variable {σ : Type}

/-! ## What the workers set out to submit -/

/-- The operation is not one of a buffer that could not be submitted. -/
def Pool.Call.Delivers (call : Pool.Call) : Prop :=
  ∀ cause, call ≠ .recountHeld cause

/-- What an operation of a worker has yet to put into the queue of full buffers is put there or is
still to be put there, unless it could not be. -/
theorem Pool.Call.Advances.delivers {pool after : Pool} {cancelled : Bool} {call next : Pool.Call}
    (step : Pool.Call.Advances pool cancelled call after (.going next))
    (kind : call.kind = .acquire ∨ call.kind = .submit ∨ call.kind = .giveBack)
    (delivers : next.Delivers) :
    call.Delivers ∧ after.fulls.items = pool.fulls.items ∧ next.offering = call.offering := by
  cases step with
  | submitStopped buffer set => exact absurd rfl (delivers _)
  | fetchReady | fetchFirst | signalEnd | drainFirst | drained =>
    rcases kind with other | other | other <;> cases other
  | _ => exact ⟨by rintro _ ⟨⟩, rfl, rfl⟩

theorem Pool.Call.Advances.delivered {pool after : Pool} {cancelled : Bool} {call : Pool.Call}
    {answer : Pool.Answer}
    (step : Pool.Call.Advances pool cancelled call after (.answered (.ok answer)))
    (kind : call.kind = .acquire ∨ call.kind = .submit ∨ call.kind = .giveBack) :
    call.Delivers ∧ after.fulls.items = pool.fulls.items ++ call.offering.map .buffer := by
  cases step with
  | submitted buffer room => exact ⟨by rintro _ ⟨⟩, rfl⟩
  | acquired buffer => exact ⟨by rintro _ ⟨⟩, (List.append_nil _).symm⟩
  | givenBack buffer room => exact ⟨by rintro _ ⟨⟩, (List.append_nil _).symm⟩
  | _ => rcases kind with other | other | other <;> cases other

namespace Worker

/-- The worker has not failed to submit a buffer. -/
structure Delivers (worker : Worker) : Prop where
  isWell : worker.IsWell
  call : ∀ call, worker.call? = some call → call.Delivers

theorem offering_of_call {worker : Worker} {call : Pool.Call} (busy : worker.call? = some call) :
    worker.offering = call.offering := by
  rw [offering, busy]
  rfl

theorem offering_of_idle {worker : Worker} (idle : worker.call? = none) : worker.offering = [] := by
  rw [offering, idle]
  rfl

/-- What a worker was about to submit or sets out to submit, it submits or is about to submit. -/
theorem Moves.delivers {extraction : Extraction} {worker after : Worker}
    {shared sharedAfter : Shared} (step : Moves extraction worker shared after sharedAfter)
    (delivers : after.Delivers) :
    worker.Delivers ∧ ∃ sent : List Buffer,
      sharedAfter.pool.fulls.items = shared.pool.fulls.items ++ sent.map .buffer ∧
        sent ++ after.offering = worker.offering ++ worker.begins after := by
  have well := isWell_of_outcome step.ends.1
  -- a worker that is at no operation, and comes to one that it begins
  have idle (none : worker.call? = .none)
      (same : sharedAfter.pool.fulls.items = shared.pool.fulls.items) :
      worker.Delivers ∧ ∃ sent : List Buffer,
        sharedAfter.pool.fulls.items = shared.pool.fulls.items ++ sent.map .buffer ∧
          sent ++ after.offering = worker.offering ++ worker.begins after := by
    refine ⟨⟨well, fun call busy => ?_⟩, [], by rw [same, List.map_nil, List.append_nil], ?_⟩
    · cases none.symm.trans busy
    · rw [begins, if_pos (offering_of_idle none), offering_of_idle none]
  have goes {call next : Pool.Call} {pool : Pool} (busy : worker.call? = some call)
      (later : after.call? = some next) (samePool : sharedAfter.pool = pool)
      (kind : call.kind = .acquire ∨ call.kind = .submit ∨ call.kind = .giveBack)
      (advance : Pool.Call.Advances shared.pool worker.cancelled call pool (.going next)) :
      worker.Delivers ∧ ∃ sent : List Buffer,
        sharedAfter.pool.fulls.items = shared.pool.fulls.items ++ sent.map .buffer ∧
          sent ++ after.offering = worker.offering ++ worker.begins after := by
    obtain ⟨before, same, offering⟩ := advance.delivers kind (delivers.call next later)
    have offers : after.offering = worker.offering := by
      rw [offering_of_call busy, offering_of_call later, offering]
    refine ⟨⟨well, fun other there => ?_⟩, [], ?_, ?_⟩
    · cases busy.symm.trans there
      exact before
    · rw [samePool, same, List.map_nil, List.append_nil]
    · rw [begins, offers]
      split
      · next none => rw [none, List.nil_append]
      · rw [List.nil_append, List.append_nil]
  have answers {call : Pool.Call} {pool : Pool} {answer : Pool.Answer}
      (busy : worker.call? = some call) (done : after.call? = none)
      (samePool : sharedAfter.pool = pool)
      (kind : call.kind = .acquire ∨ call.kind = .submit ∨ call.kind = .giveBack)
      (advance : Pool.Call.Advances shared.pool worker.cancelled call pool
        (.answered (.ok answer))) :
      worker.Delivers ∧ ∃ sent : List Buffer,
        sharedAfter.pool.fulls.items = shared.pool.fulls.items ++ sent.map .buffer ∧
          sent ++ after.offering = worker.offering ++ worker.begins after := by
    obtain ⟨before, items⟩ := advance.delivered kind
    refine ⟨⟨well, fun other there => ?_⟩, call.offering, by rw [samePool, items], ?_⟩
    · cases busy.symm.trans there
      exact before
    · rw [begins, offering_of_idle done, offering_of_call busy, ite_self]
  cases step with
  | acquiring phase kind advance =>
    exact goes (by simp only [call?, phase]) rfl rfl (.inl kind) advance
  | submitting phase kind advance =>
    exact goes (by simp only [call?, phase]) rfl rfl (.inr (.inl kind)) advance
  | givingUp phase kind advance =>
    exact goes (by simp only [call?, phase]) rfl rfl (.inr kind) advance
  | acquired phase kind advance =>
    exact answers (by simp only [call?, phase]) rfl rfl (.inl kind) advance
  | submitted phase kind advance =>
    exact answers (by simp only [call?, phase]) rfl rfl (.inr (.inl kind)) advance
  | gaveUp phase kind advance =>
    exact answers (by simp only [call?, phase]) rfl rfl (.inr kind) advance
  | acquireFailed | submitFailed | giveUpFailed => exact absurd rfl (delivers.isWell _)
  | _ => exact idle (by simp only [call?, ‹worker.phase = _›]) rfl

theorem delivers_of_finished {worker : Worker} (isOver : worker.phase = .finished) :
    worker.Delivers ∧ worker.offering = [] := by
  have idle : worker.call? = none := by simp only [call?, isOver]
  refine ⟨⟨fun cause failed => ?_, fun call busy => ?_⟩, offering_of_idle idle⟩
  · cases isOver.symm.trans failed
  · cases idle.symm.trans busy

end Worker

variable {job : Job σ} {assured : Prop} {files₀ : Files} {offered : List Buffer}
  {put : List FullItem} {states : List RunState} {world : World σ}

namespace Dump

variable {dump after : Dump σ} {filled : List Buffer} {marks : Nat} {time : Moment}
  {files changed : Files} {action : Action}

/-- As long as no worker has failed to submit a buffer, the buffers that the workers have set out to
submit are those that were put into the queue and those that are about to be put there. -/
def Delivering (offered : List Buffer) (put : List FullItem) (dump : Dump σ) : Prop :=
  (∀ worker ∈ dump.workers, worker.Delivers) → ∀ buffer, offered.count buffer =
    put.count (.buffer buffer) +
      total (dump.workers.map fun worker => worker.offering.count buffer)

theorem count_map_buffer (sent : List Buffer) (buffer : Buffer) :
    (sent.map FullItem.buffer).count (.buffer buffer) = sent.count buffer :=
  List.count_map_of_injective sent FullItem.buffer (fun _ _ same => FullItem.buffer.inj same) buffer

/-- Nobody but a worker puts a buffer into the queue. -/
theorem Delivering.quiet (delivering : dump.Delivering offered put)
    (hands : ∀ buffer, (dump.hands after).count (.buffer buffer) = 0)
    (begins : dump.begins after action = [])
    (workers : (∀ worker ∈ after.workers, worker.Delivers) →
      ∀ worker ∈ dump.workers, worker.Delivers)
    (offering : after.workers.map Worker.offering = dump.workers.map Worker.offering) :
    after.Delivering (offered ++ dump.begins after action) (put ++ dump.hands after) := by
  intro delivers buffer
  have before := delivering (workers delivers) buffer
  have same := congrArg (List.map (List.count buffer)) offering
  rw [List.map_map, List.map_map] at same
  rw [begins, List.append_nil, before, List.count_append, hands, Nat.add_zero]
  exact congrArg (fun counts => _ + total counts) same.symm

theorem Delivering.worker {id : Nat} {side : Side} {worker worked : Worker} {shared : Shared}
    (delivering : dump.Delivering offered put) (here : dump.workers[id]? = some worker)
    (step : Worker.Moves job.extraction worker dump.shared worked shared)
    (pool : after.shared.pool = shared.pool) (workers : after.workers = dump.workers.set id worked) :
    after.Delivering (offered ++ dump.begins after (.worker id side))
      (put ++ dump.hands after) := by
  intro delivers buffer
  rw [workers] at delivers
  have within := (List.getElem?_eq_some_iff.mp here).1
  obtain ⟨before, sent, items, whole⟩ :=
    step.delivers (delivers worked (mem_set_of_getElem? worked here))
  have others : ∀ other ∈ dump.workers, other.Delivers := by
    intro other member
    by_cases same : other = worker
    · exact same ▸ before
    · exact delivers other (mem_set_of_ne worked here member same)
  have begins : dump.begins after (.worker id side) = worker.begins worked := by
    simp only [Dump.begins, workers, here, List.getElem?_set_self within]
  have hands : dump.hands after = sent.map .buffer :=
    Queue.gained_of_append (by rw [pool, items])
  have counts := congrArg (List.count buffer) whole
  have exchanged := total_map_set (f := fun worker => worker.offering.count buffer) worked here
  have counted := delivering others buffer
  rw [List.count_append, List.count_append] at counts
  rw [begins, hands, workers, List.count_append, List.count_append, count_map_buffer]
  omega

/-- Once all workers have ended, all that they set out to submit has been put into the queue. -/
theorem Delivering.perm {sent : List Buffer} (delivering : dump.Delivering offered put)
    (all : put = sent.map .buffer ++ List.replicate marks .endOfInput)
    (isOver : ∀ worker ∈ dump.workers, worker.phase = .finished) : offered.Perm sent := by
  refine List.perm_iff_count.mpr fun buffer => ?_
  have none : (List.replicate marks FullItem.endOfInput).count (.buffer buffer) = 0 :=
    List.count_replicate.trans (if_neg fun same => by cases eq_of_beq same)
  have idle : total (dump.workers.map fun worker => worker.offering.count buffer) = 0 := by
    refine total_eq_zero fun worker member => ?_
    rw [(Worker.delivers_of_finished (isOver worker member)).2, List.count_nil]
  have counted := delivering
    (fun worker member => (Worker.delivers_of_finished (isOver worker member)).1) buffer
  rw [idle, all, List.count_append, count_map_buffer, none] at counted
  exact counted

theorem delivering_start (job : Job σ) (writer : Store.Writer) (time : Moment) :
    (start job writer time).Delivering [] [] := by
  intro _ buffer
  rw [total_workers_start job writer time fun _ => rfl]
  rfl

/-- What the coordinator puts into the queue is the end of input. -/
theorem Coordinates.fulls (step : dump.Coordinates assured time files after changed)
    (ends : dump.Ends job) :
    ∃ more, (more = [] ∨ more = [FullItem.endOfInput]) ∧
      after.shared.pool.fulls.items = dump.shared.pool.fulls.items ++ more := by
  have shaped := ends.coordinator
  have quiet (same : after.shared.pool.fulls.items = dump.shared.pool.fulls.items) :
      ∃ more, (more = [] ∨ more = [FullItem.endOfInput]) ∧
        after.shared.pool.fulls.items = dump.shared.pool.fulls.items ++ more :=
    ⟨[], .inl rfl, same.trans (List.append_nil _).symm⟩
  have calls {call : Pool.Call} {pool : Pool} {progress : Pool.Progress}
      (kind : call.kind = .signal ∨ call.kind = .drain) (samePool : after.shared.pool = pool)
      (advance : Pool.Call.Advances dump.shared.pool false call pool progress) :
      ∃ more, (more = [] ∨ more = [FullItem.endOfInput]) ∧
        after.shared.pool.fulls.items = dump.shared.pool.fulls.items ++ more := by
    rcases advance.fulls kind with same | ⟨-, last⟩
    · exact quiet (samePool ▸ same)
    · exact ⟨_, .inr rfl, samePool ▸ last⟩
  cases step with
  | signalling phase advance | signalled phase advance | signalFailed phase advance =>
    simp only [Coordinator.IsShaped, phase] at shaped
    exact calls (.inl shaped) rfl advance
  | draining phase advance | drained phase advance | drainFailed phase advance =>
    simp only [Coordinator.IsShaped, phase] at shaped
    exact calls (.inr shaped) rfl advance
  | @cancelled _ stage _ phase =>
    exact quiet (congrArg (fun shared => shared.pool.fulls.items) (cancel_shared dump stage))
  | _ => exact quiet rfl

theorem hands_of_same (items : after.shared.pool.fulls.items = dump.shared.pool.fulls.items) :
    dump.hands after = [] :=
  Queue.gained_of_append (items.trans (List.append_nil _).symm)

theorem Delivering.coordinate (delivering : dump.Delivering offered put) (ends : dump.Ends job)
    (step : dump.Coordinates assured time files after changed) :
    after.Delivering (offered ++ dump.begins after .coordinate) (put ++ dump.hands after) := by
  have hands (buffer : Buffer) : (dump.hands after).count (.buffer buffer) = 0 := by
    obtain ⟨more, few, items⟩ := step.fulls ends
    rw [hands, Queue.gained_of_append items]
    rcases few with rfl | rfl <;> rfl
  cases step with
  | @cancelled _ stage _ phase =>
    have same (worker : Worker) : Worker.Delivers { worker with cancelled := true } =
        worker.Delivers :=
      propext ⟨fun delivers => ⟨delivers.isWell, delivers.call⟩,
        fun delivers => ⟨delivers.isWell, delivers.call⟩⟩
    refine delivering.quiet hands rfl (fun all => ?_) (map_cancel_workers (fun _ => rfl) dump stage)
    have kept : ∀ delivers ∈ (dump.cancel stage).workers.map Worker.Delivers, delivers :=
      List.forall_mem_map.mpr all
    rw [map_cancel_workers same dump stage] at kept
    exact fun worker member => kept _ (List.mem_map_of_mem member)
  | _ => exact delivering.quiet hands rfl (fun all => all) rfl

variable [RecordSource σ]

theorem Delivering.move (delivering : dump.Delivering offered put) (ends : dump.Ends job)
    (step : Moves job assured time dump files action after changed) :
    after.Delivering (offered ++ dump.begins after action) (put ++ dump.hands after) := by
  have quiet (none : dump.hands after = []) (buffer : Buffer) :
      (dump.hands after).count (.buffer buffer) = 0 := by
    rw [none, List.count_nil]
  cases step with
  | download step => exact delivering.quiet (quiet (hands_of_same rfl)) rfl (fun all => all) rfl
  | worker here step => exact delivering.worker here step rfl rfl
  | storer step =>
    obtain ⟨taken, items, -⟩ := step.takes
    exact delivering.quiet (quiet (hands_of_suffix items)) rfl (fun all => all) rfl
  | join step =>
    cases step <;> exact delivering.quiet (quiet (hands_of_same rfl)) rfl (fun all => all) rfl
  | coordinate step => exact delivering.coordinate ends step

/-! ### The states of a run -/

/-- The states that the run has been in go with what the coordinator is about to do. -/
def HasBeenIn (dump : Dump σ) (states : List RunState) : Prop :=
  match dump.coordinator.phase with
  | .starting => states = [.starting] ∧ dump.coordinator.workersDone = 0
  | .waiting =>
    states = [.starting, .running] ∧ dump.coordinator.workersDone ≠ dump.workers.length ∨
      states = [.starting, .running, .draining] ∧
        dump.coordinator.workersDone = dump.workers.length
  | .signalling _ => states = [.starting, .running, .draining]
  | .draining _ => states = [.starting, .running, .draining]
  | .closing => states = [.starting, .running, .draining]
  | .aborting _ =>
    states = [.starting, .running] ∨ states = [.starting, .running, .draining]
  | .returned (.ok _) => states = [.starting, .running, .draining, .terminated true]
  | _ =>
    states = [.starting, .running, .terminated false] ∨
      states = [.starting, .running, .draining, .terminated false]

/-- The states that the run has been in, with the last of them. -/
structure Standing (states : List RunState) (dump : Dump σ) : Prop where
  last : states.getLast? = some dump.coordinator.state
  been : dump.HasBeenIn states

omit [RecordSource σ] in
/-- Sort-and-store has not ended before all workers have been seen to end. -/
theorem Announcing.hasJoinedAll (announcing : dump.Announcing put)
    (stocking : dump.Stocking job filled marks) (isOver : dump.storer.phase = .finished) :
    dump.HasJoinedAll := by
  refine announcing.joined (Bool.of_not_eq_false fun goesOn => ?_)
  have single := stocking.single
  simp only [goesOn, Storer.marks, isOver, Bool.false_eq_true, if_false] at single
  omega

omit [RecordSource σ] in
theorem Standing.stays (standing : dump.Standing states)
    (same : after.coordinator.state = dump.coordinator.state) (been : after.HasBeenIn states) :
    after.Standing (states ++ dump.enters after) := by
  rw [enters, if_pos same, List.append_nil]
  refine ⟨?_, been⟩
  rw [same]
  exact standing.last

omit [RecordSource σ] in
theorem standing_of_enters (next : RunState) (state : after.coordinator.state = next)
    (other : next ≠ dump.coordinator.state) (been : after.HasBeenIn (states ++ [next])) :
    after.Standing (states ++ dump.enters after) := by
  rw [enters, state, if_neg other]
  refine ⟨?_, been⟩
  rw [state, List.getLast?_concat]

omit [RecordSource σ] in
/-- Giving up is the end of a run that had not ended. -/
theorem Standing.terminates (standing : dump.Standing states)
    (been : states = [.starting, .running] ∨ states = [.starting, .running, .draining])
    (state : after.coordinator.state = .terminated false)
    (shape : ∀ ended, ended = [.starting, .running, .terminated false] ∨
      ended = [.starting, .running, .draining, .terminated false] → after.HasBeenIn ended) :
    after.Standing (states ++ dump.enters after) := by
  have last := standing.last
  rcases been with rfl | rfl
  · have running : RunState.running = dump.coordinator.state := Option.some.inj last
    exact standing_of_enters _ state (by rw [← running]; decide) (shape _ (.inl rfl))
  · have draining : RunState.draining = dump.coordinator.state := Option.some.inj last
    exact standing_of_enters _ state (by rw [← draining]; decide) (shape _ (.inr rfl))

omit [RecordSource σ] in
theorem Standing.join {stage : Stage} (standing : dump.Standing states)
    (knows : dump.coordinator.IsCalm → dump.Knows) (ends : dump.Ends job)
    (drained : dump.storer.phase = .finished → dump.HasJoinedAll)
    (step : dump.Joins stage after) : after.Standing (states ++ dump.enters after) := by
  have been := standing.been
  -- a coordinator that waits for a worker has not seen them all
  have waits {id : Nat} {worker : Worker} (phase : dump.coordinator.phase = .waiting)
      (here : .transform id ∈ dump.coordinator.outstanding)
      (there : dump.workers[id]? = some worker) : states = [.starting, .running] := by
    have known := knows (by simp only [Coordinator.IsCalm, phase])
    have fewer := known.lt_of_unseen (List.mem_of_getElem? there)
      (by rw [ends.id_eq there]; exact fun seen => seen here)
    simp only [HasBeenIn, phase] at been
    exact (been.resolve_right fun all => absurd all.2 (Nat.ne_of_lt fewer)).1
  cases step with
  | download phase here isOver =>
    refine standing.stays rfl ?_
    simp only [HasBeenIn, withCoordinator_coordinator, Coordinator.joinDownload, Coordinator.tell,
      Coordinator.strike, phase] at been ⊢
    exact been
  | worker phase here there isOver more =>
    refine standing.stays rfl ?_
    simp only [HasBeenIn, withCoordinator_coordinator, Coordinator.noteWorker, Coordinator.tell,
      Coordinator.strike, phase]
    exact .inl ⟨waits phase here there, more⟩
  | lastWorker phase here there isOver ended =>
    obtain rfl := waits phase here there
    have running : RunState.running = dump.coordinator.state := Option.some.inj standing.last
    exact standing_of_enters .draining rfl (by rw [← running]; decide) rfl
  | storer phase here isOver =>
    simp only [HasBeenIn, phase] at been
    have all := been.resolve_left fun some => some.2 (drained isOver).count
    exact standing.stays rfl all.1
  | badly phase here outcome =>
    simp only [HasBeenIn, phase] at been
    exact standing.stays rfl (been.imp And.left And.left)
  | late phase here outcome =>
    simp only [HasBeenIn, phase] at been
    exact standing.stays rfl been

omit [RecordSource σ] in
theorem Standing.coordinate (standing : dump.Standing states)
    (knows : dump.coordinator.IsCalm → dump.Knows) (ends : dump.Ends job)
    (some : 0 < job.settings.workers)
    (drained : dump.storer.phase = .finished → dump.HasJoinedAll)
    (step : dump.Coordinates assured time files after changed) :
    after.Standing (states ++ dump.enters after) := by
  have been := standing.been
  have last := standing.last
  cases step with
  | started phase =>
    simp only [HasBeenIn, phase] at been
    obtain ⟨rfl, none⟩ := been
    have starting : RunState.starting = dump.coordinator.state := Option.some.inj last
    refine standing_of_enters .running rfl (by rw [← starting]; decide) (.inl ⟨rfl, fun all => ?_⟩)
    rw [← ends.length_eq] at some
    exact absurd (none.symm.trans all) (Nat.ne_of_lt some)
  | allSeen phase isOver first stored =>
    simp only [HasBeenIn, phase] at been
    have known := knows (by simp only [Coordinator.IsCalm, phase])
    have all := been.resolve_left fun more => more.2 (drained (known.isDone isOver).storer).count
    exact standing.stays rfl all.1
  | missed phase isOver missing =>
    simp only [HasBeenIn, phase] at been
    exact standing.stays rfl (been.imp And.left And.left)
  | signalling phase advance =>
    simp only [HasBeenIn, phase] at been
    exact standing.stays rfl been
  | signalled phase advance =>
    simp only [HasBeenIn, phase] at been
    have next := (knows (by simp only [Coordinator.IsCalm, phase])).next
    simp only [IsAtNext, phase] at next
    refine standing.stays ?_ ?_
    · simp only [withCoordinator_coordinator, Coordinator.signalled]
    · simp only [HasBeenIn, withCoordinator_coordinator, Coordinator.signalled]
      exact .inr ⟨been, next⟩
  | signalFailed phase advance =>
    simp only [HasBeenIn, phase] at been
    exact standing.stays rfl (.inr been)
  | draining phase advance =>
    simp only [HasBeenIn, phase] at been
    exact standing.stays rfl been
  | drained phase advance =>
    simp only [HasBeenIn, phase] at been
    have known := knows (by simp only [Coordinator.IsCalm, phase])
    have next := known.next
    simp only [IsAtNext, phase] at next
    exact standing.stays rfl (.inr ⟨been, (drained (known.storer next)).count⟩)
  | drainFailed phase advance =>
    simp only [HasBeenIn, phase] at been
    exact standing.stays rfl (.inr been)
  | aborted phase =>
    simp only [HasBeenIn, phase] at been
    exact standing.terminates been rfl fun _ shape => shape
  | cancelled phase =>
    simp only [HasBeenIn, phase] at been
    exact standing.stays rfl been
  | allCancelled phase =>
    simp only [HasBeenIn, phase] at been
    exact standing.stays rfl been
  | gaveUp phase =>
    simp only [HasBeenIn, phase] at been
    have state : RunState.terminated false = dump.coordinator.state := by
      rcases been with rfl | rfl <;> exact Option.some.inj last
    exact standing.stays state been
  | closed phase first stored done =>
    simp only [HasBeenIn, phase] at been
    obtain rfl := been
    have draining : RunState.draining = dump.coordinator.state := Option.some.inj last
    exact standing_of_enters (.terminated true) rfl (by rw [← draining]; decide) rfl
  | closeFailed phase stored failed steady =>
    simp only [HasBeenIn, phase] at been
    exact standing.terminates (.inr been) rfl fun _ shape => shape
  | closedNothing phase missing =>
    simp only [HasBeenIn, phase] at been
    exact standing.terminates (.inr been) rfl fun _ shape => shape

theorem Standing.move (standing : dump.Standing states)
    (knows : dump.coordinator.IsCalm → dump.Knows) (ends : dump.Ends job)
    (some : 0 < job.settings.workers)
    (drained : dump.storer.phase = .finished → dump.HasJoinedAll)
    (step : Moves job assured time dump files action after changed) :
    after.Standing (states ++ dump.enters after) := by
  cases step with
  | download step => exact standing.stays rfl standing.been
  | @worker id _ worker worked shared here step =>
    refine standing.stays rfl ?_
    have same : (dump.workers.set id worked).length = dump.workers.length := List.length_set
    have been := standing.been
    unfold HasBeenIn at been ⊢
    rw [same]
    exact been
  | storer step => exact standing.stays rfl standing.been
  | join step => exact standing.join knows ends drained step
  | coordinate step => exact standing.coordinate knows ends some drained step

/-! ### What sort-and-store has stored -/

/-- Sort-and-store has stored the entries of the first buffers that were put into the queue, in order,
and the others are in its hands or in the queue. -/
structure Handing (job : Job σ) (assured : Prop) (put : List FullItem)
    (stored : List (List StoredEntry)) (dump : Dump σ) (files : Files) : Prop where
  workers : ∀ worker ∈ dump.workers, ∃ received taken sent,
    worker.Accounts job.extraction job.settings.budget.bufferBytes
      job.settings.budget.entriesPerBuffer received taken sent
  pool : dump.shared.pool.IsSound job.settings.budget.bufferBytes
    job.settings.budget.entriesPerBuffer
  storer : dump.storer.Accounts job.settings.budget.bufferBytes
    job.settings.budget.entriesPerBuffer assured files stored
  queue : dump.storer.IsWell → put.flatMap FullItem.contents =
    stored ++ dump.storer.hand ++ dump.shared.pool.filled

variable {stored : List (List StoredEntry)}

omit [RecordSource σ] in
/-- Sort-and-store stays as it is, and what is put into the queue is behind the others there. -/
theorem Handing.quiet (handing : dump.Handing job assured put stored files)
    (workers : ∀ worker ∈ after.workers, ∃ received taken sent,
      worker.Accounts job.extraction job.settings.budget.bufferBytes
        job.settings.budget.entriesPerBuffer received taken sent)
    (pool : after.shared.pool.IsSound job.settings.budget.bufferBytes
      job.settings.budget.entriesPerBuffer)
    (items : ∃ more, after.shared.pool.fulls.items = dump.shared.pool.fulls.items ++ more)
    (storer : after.storer = dump.storer) :
    after.Handing job assured (put ++ dump.hands after) stored files := by
  obtain ⟨more, items⟩ := items
  refine ⟨workers, pool, ?_, fun well => ?_⟩
  · rw [storer]
    exact handing.storer
  · rw [storer] at well ⊢
    rw [hands, Queue.gained_of_append items, List.flatMap_append, handing.queue well, Pool.filled,
      Pool.filled, items, List.flatMap_append, ← List.append_assoc]

omit [RecordSource σ] in
theorem Handing.cancel (handing : dump.Handing job assured put stored files) (stage : Stage) :
    (dump.cancel stage).Handing job assured put stored files := by
  cases stage with
  | download => exact ⟨handing.workers, handing.pool, handing.storer, handing.queue⟩
  | transform id =>
    refine ⟨?_, handing.pool, handing.storer, handing.queue⟩
    refine forall_mem_cancel_workers (fun worker known => ?_) handing.workers (.transform id)
    obtain ⟨received, taken, sent, accounts⟩ := known
    exact ⟨received, taken, sent, accounts.cancel⟩
  | sortAndStore =>
    exact ⟨handing.workers, handing.pool, handing.storer.cancel, handing.queue⟩

omit [RecordSource σ] in
theorem Handing.worker {id : Nat} {worker worked : Worker} {shared : Shared}
    (handing : dump.Handing job assured put stored files) (ends : dump.Ends job)
    (sized : job.settings.IsSized) (stocking : dump.Stocking job filled marks)
    (here : dump.workers[id]? = some worker)
    (step : Worker.Moves job.extraction worker dump.shared worked shared)
    (pool : after.shared.pool = shared.pool) (workers : after.workers = dump.workers.set id worked)
    (storer : after.storer = dump.storer) :
    after.Handing job assured (put ++ dump.hands after) stored files := by
  have member := List.mem_of_getElem? here
  have shaped := ends.shaped worker member
  have goingOn : dump.shared.pool.ended = false := by
    refine Bool.eq_false_iff.mpr fun late => ?_
    exact step.phase_ne_finished (stocking.isOver late worker member)
  obtain ⟨received, taken, sent, accounts⟩ := handing.workers worker member
  obtain ⟨got, given, -, -, sound, kept⟩ :=
    step.accounts shaped accounts handing.pool goingOn sized.bytes sized.entries
  refine handing.quiet ?_ (by rwa [pool]) ?_ storer
  · rw [workers]
    exact forall_mem_set ⟨_, _, _, kept⟩ handing.workers
  · rw [pool]
    rcases (step.fills shaped).fulls with same | ⟨buffer, last⟩
    · exact ⟨[], same.trans (List.append_nil _).symm⟩
    · exact ⟨_, last⟩

omit [RecordSource σ] in
theorem Handing.stores {storer : Storer} {pool : Pool}
    (handing : dump.Handing job assured put stored files)
    (step : Storer.Moves assured time dump.storer dump.shared.pool files storer pool changed)
    (same : after = { dump with storer := storer, shared := { dump.shared with pool := pool } }) :
    ∃ more, after.Handing job assured (put ++ dump.hands after) (stored ++ more) changed := by
  subst same
  have runs := Storer.isWell_of_outcome step.ends.1
  obtain ⟨more, sound, -, -, accounts, smooth⟩ := step.accounts handing.storer handing.pool
  obtain ⟨taken, items, -⟩ := step.takes
  rw [hands_of_suffix items, List.append_nil]
  refine ⟨more, handing.workers, sound, accounts, fun well => ?_⟩
  rw [handing.queue runs, List.append_assoc, ← (smooth well).1]
  simp only [List.append_assoc]

omit [RecordSource σ] in
theorem Handing.coordinate (handing : dump.Handing job assured put stored files)
    (ends : dump.Ends job) (step : dump.Coordinates assured time files after changed)
    (goesOn : ∀ result, after.coordinator.phase ≠ .returned result) :
    after.Handing job assured (put ++ dump.hands after) stored changed := by
  have shaped := ends.coordinator
  have items : ∃ more, after.shared.pool.fulls.items = dump.shared.pool.fulls.items ++ more := by
    obtain ⟨more, -, items⟩ := step.fulls ends
    exact ⟨more, items⟩
  cases step with
  | signalling phase advance | signalled phase advance | signalFailed phase advance =>
    simp only [Coordinator.IsShaped, phase] at shaped
    exact handing.quiet handing.workers
      (advance.isSound_of_coordinator (.inl shaped) handing.pool) items rfl
  | draining phase advance | drained phase advance | drainFailed phase advance =>
    simp only [Coordinator.IsShaped, phase] at shaped
    exact handing.quiet handing.workers
      (advance.isSound_of_coordinator (.inr shaped) handing.pool) items rfl
  | @cancelled cause stage left phase =>
    have kept := handing.cancel stage
    have same : dump.hands (dump.cancel stage) = [] :=
      hands_of_same (congrArg (fun shared => shared.pool.fulls.items) (cancel_shared dump stage))
    have none : dump.hands ((dump.cancel stage).withCoordinator
        (dump.coordinator.goTo (.cancelling cause left))) = [] := same
    rw [none, List.append_nil]
    exact ⟨kept.workers, kept.pool, kept.storer, kept.queue⟩
  | closed => exact absurd rfl (goesOn _)
  | closeFailed => exact absurd rfl (goesOn _)
  | _ => exact handing.quiet handing.workers handing.pool items rfl

/-- Until the coordinator returns, what was put into the queue stays in its place or is stored. -/
theorem Handing.move (handing : dump.Handing job assured put stored files)
    (ends : dump.Ends job) (sized : job.settings.IsSized)
    (stocking : dump.Stocking job filled marks)
    (step : Moves job assured time dump files action after changed)
    (goesOn : ∀ result, after.coordinator.phase ≠ .returned result) :
    ∃ stored, after.Handing job assured (put ++ dump.hands after) stored changed := by
  have items : ∃ more, dump.shared.pool.fulls.items = dump.shared.pool.fulls.items ++ more :=
    ⟨[], (List.append_nil _).symm⟩
  cases step with
  | download step => exact ⟨stored, handing.quiet handing.workers handing.pool items rfl⟩
  | worker here step =>
    exact ⟨stored, handing.worker ends sized stocking here step rfl rfl rfl⟩
  | storer step =>
    obtain ⟨more, kept⟩ := handing.stores step rfl
    exact ⟨_, kept⟩
  | join step =>
    cases step <;> exact ⟨stored, handing.quiet handing.workers handing.pool items rfl⟩
  | coordinate step => exact ⟨stored, handing.coordinate ends step goesOn⟩

omit [RecordSource σ] in
theorem handing_start {writer : Store.Writer} (started : Moment)
    (opens : (Store.Writer.openAt job.directory).runOn time files = (.ok writer, changed)) :
    (start job writer started).Handing job assured [] [] changed := by
  obtain ⟨rfl, -, -⟩ := Store.Writer.openAt_ok opens
  refine ⟨?_, Pool.isSound_create _ _ _, Storer.accounts_start rfl rfl, fun _ => rfl⟩
  exact forall_workers_start job _ started fun id => ⟨_, _, _, Worker.accounts_start id⟩

omit [RecordSource σ] in
theorem standing_start (job : Job σ) (writer : Store.Writer) (time : Moment) :
    (start job writer time).Standing [.starting] :=
  ⟨rfl, rfl, rfl⟩

omit [RecordSource σ] in
/-- Once sort-and-store has ended well nothing but ends of input is left, and it has stored the
entries of all buffers. -/
theorem Handing.finished (handing : dump.Handing job assured put stored files)
    (stocking : dump.Stocking job filled marks) (isOver : dump.storer.phase = .finished) :
    dump.storer.writer.Keeps files
        ((put.flatMap FullItem.contents).map (stableSort StoredEntry.path)) ∧
      dump.storer.entries = (put.flatMap FullItem.contents).flatten.length := by
  have well : dump.storer.IsWell := fun cause failed => by cases isOver.symm.trans failed
  have inHand : dump.storer.hand = [] := by simp only [Storer.hand, isOver]
  have all := handing.queue well
  rw [inHand, stocking.filled_eq_nil isOver, List.append_nil, List.append_nil] at all
  rw [all]
  exact ⟨handing.storer.keeps well, handing.storer.entries well⟩

/-! ### What the history says -/

omit [RecordSource σ] in
theorem Announcing.count_eq (announcing : dump.Announcing put) :
    put.count .endOfInput = dump.endsOfInput := by
  obtain ⟨sent, all⟩ := announcing.sent
  have none : (sent.map FullItem.buffer).count .endOfInput = 0 := by
    refine List.count_eq_zero.mpr fun member => ?_
    obtain ⟨buffer, -, same⟩ := List.mem_map.mp member
    cases same
  rw [all, List.count_append, none, List.count_replicate_self, Nat.zero_add]

omit [RecordSource σ] in
theorem Stocking.endsOfInput_le (stocking : dump.Stocking job filled marks) :
    dump.endsOfInput ≤ 1 := by
  have single := stocking.single
  rw [stocking.endsOfInput_eq]
  split at single <;> omega

omit [RecordSource σ] in
/-- Where an end of input was put, it had been signalled. -/
theorem Announcing.ended (announcing : dump.Announcing put)
    (stocking : dump.Stocking job filled marks) (some : .endOfInput ∈ put) :
    dump.shared.pool.ended = true := by
  have positive := List.count_pos_iff.mpr some
  have single := stocking.single
  rw [announcing.count_eq, stocking.endsOfInput_eq] at positive
  by_contra goesOn
  rw [if_neg goesOn] at single
  omega

omit [RecordSource σ] in
/-- Sort-and-store ends well only by the end of input. -/
theorem Announcing.mem_of_finished (announcing : dump.Announcing put)
    (isOver : dump.storer.phase = .finished) : .endOfInput ∈ put := by
  refine List.count_pos_iff.mp ?_
  rw [announcing.count_eq, endsOfInput, Storer.marks, isOver]
  exact Nat.succ_pos _

omit [RecordSource σ] in
theorem Standing.order (standing : dump.Standing states) :
    ∃ success, states <+: [.starting, .running, .draining, .terminated success] ∨
      states <+: [.starting, .running, .terminated false] := by
  have early : [RunState.starting, .running] <+: [.starting, .running, .draining, .terminated true] :=
    ⟨_, rfl⟩
  have late : [RunState.starting, .running, .draining] <+:
      [.starting, .running, .draining, .terminated true] := ⟨_, rfl⟩
  have been := standing.been
  unfold HasBeenIn at been
  split at been
  · exact ⟨true, .inl (been.1 ▸ ⟨_, rfl⟩)⟩
  · rcases been with ⟨rfl, -⟩ | ⟨rfl, -⟩
    · exact ⟨true, .inl early⟩
    · exact ⟨true, .inl late⟩
  · exact ⟨true, .inl (been ▸ late)⟩
  · exact ⟨true, .inl (been ▸ late)⟩
  · exact ⟨true, .inl (been ▸ late)⟩
  · rcases been with rfl | rfl
    · exact ⟨true, .inl early⟩
    · exact ⟨true, .inl late⟩
  · exact ⟨true, .inl (been ▸ List.prefix_rfl)⟩
  · rcases been with rfl | rfl
    · exact ⟨false, .inr List.prefix_rfl⟩
    · exact ⟨false, .inl List.prefix_rfl⟩

omit [RecordSource σ] in
/-- A run that is over has terminated, well or badly as it has returned. -/
theorem Standing.terminated {result : Except Error RunResult} (standing : dump.Standing states)
    (returned : dump.coordinator.phase = .returned result) :
    dump.coordinator.state = .terminated result.toBool := by
  have been := standing.been
  have last := standing.last
  unfold HasBeenIn at been
  rw [returned] at been
  cases result with
  | ok result =>
    rw [been] at last
    exact (Option.some.inj last).symm
  | error cause =>
    rcases been with rfl | rfl <;> exact (Option.some.inj last).symm

end Dump

/-! ## Runs -/

variable [RecordSource σ]

theorem Job.Announces.delivering
    (announces : job.Announces assured files₀ offered put states world) :
    world.dump.Delivering offered put := by
  induction announces using Job.Announces.rec_moves with
  | opened time started opens => exact Dump.delivering_start job _ started
  | move before _ step ih =>
    obtain ⟨actions, log, reached⟩ := before.reaches
    exact ih.move reached.ends step

/-- In every world that is announced the states of the run are those that go with it. -/
theorem Job.Announces.standing (announces : job.Announces assured files₀ offered put states world)
    (workers : 0 < job.settings.workers) : world.dump.Standing states := by
  induction announces using Job.Announces.rec_moves with
  | opened time started opens => exact Dump.standing_start job _ started
  | move before _ step ih =>
    obtain ⟨actions, log, reached⟩ := before.reaches
    obtain ⟨filled, marks, stocking, -⟩ := reached.stocking workers
    exact ih.move reached.knows reached.ends workers
      ((before.announcing workers).hasJoinedAll stocking) step

/-- Until the coordinator returns, what was put into the queue is in its place or stored. -/
theorem Job.Announces.handing (announces : job.Announces assured files₀ offered put states world)
    (sized : job.settings.IsSized)
    (goesOn : ∀ result, world.dump.coordinator.phase ≠ .returned result) :
    ∃ stored, world.dump.Handing job assured put stored world.files := by
  induction announces using Job.Announces.rec_moves with
  | opened time started opens => exact ⟨[], Dump.handing_start started opens⟩
  | move before _ step ih =>
    obtain ⟨stored, handing⟩ := ih (step.goesOn_before goesOn)
    obtain ⟨actions, log, reached⟩ := before.reaches
    obtain ⟨filled, marks, stocking, -⟩ := reached.stocking sized.workers
    exact handing.move reached.ends sized stocking step goesOn

/-- At most one end of input is ever put into the queue of full buffers, behind all buffers.  When it
is put there, all workers have ended well and have been seen to end, and all buffers that they set
out to submit are in front of it.  Sort-and-store ends well only by receiving it, and has then stored
the entries of all buffers.  A run that ends well has put it there, and a run of which a worker has
failed has not.  The run is starting, then running, then perhaps draining, and then terminated once
and for all. -/
theorem Job.Announces.announced_once
    (announces : job.Announces assured files₀ offered put states world)
    (stands : job.settings.Stands) :
    (∃ (sent : List Buffer) (marks : Nat),
      put = sent.map .buffer ++ List.replicate marks .endOfInput ∧ marks ≤ 1 ∧
        (.endOfInput ∈ put → offered.Perm sent)) ∧
    (.endOfInput ∈ put →
      (∀ worker ∈ world.dump.workers, worker.phase = .finished) ∧
        world.dump.coordinator.workersDone = job.settings.workers ∧
        ∀ id < job.settings.workers, world.dump.HasSeen (.transform id)) ∧
    (world.dump.storer.phase = .finished → .endOfInput ∈ put ∧
      world.dump.shared.pool.filled = [] ∧
      ((∀ result, world.dump.coordinator.phase ≠ .returned result) →
        world.dump.storer.writer.Keeps world.files
            ((put.flatMap FullItem.contents).map (stableSort StoredEntry.path)) ∧
          world.dump.storer.entries = (put.flatMap FullItem.contents).flatten.length)) ∧
    (∀ result, world.dump.coordinator.phase = .returned (.ok result) →
      put.count .endOfInput = 1) ∧
    ((∃ worker ∈ world.dump.workers, ¬ worker.IsWell) → .endOfInput ∉ put) ∧
    (∃ success, states <+: [.starting, .running, .draining, .terminated success] ∨
      states <+: [.starting, .running, .terminated false]) ∧
    states.getLast? = some world.dump.coordinator.state ∧
    ∀ result, world.dump.coordinator.phase = .returned result →
      world.dump.coordinator.state = .terminated result.toBool := by
  have sized := stands.isSized
  obtain ⟨actions, log, reached⟩ := announces.reaches
  obtain ⟨filled, marks, stocking, -⟩ := reached.stocking sized.workers
  have announcing := announces.announcing sized.workers
  have standing := announces.standing sized.workers
  have isOver (some : .endOfInput ∈ put) := stocking.isOver (announcing.ended stocking some)
  have joined (some : .endOfInput ∈ put) := announcing.joined (announcing.ended stocking some)
  refine ⟨?_, fun some => ⟨isOver some, ?_, ?_⟩, fun ended => ⟨?_, ?_, fun goesOn => ?_⟩,
    fun result returned => ?_, ?_, standing.order, standing.last, fun _ => standing.terminated⟩
  · obtain ⟨sent, all⟩ := announcing.sent
    refine ⟨sent, _, all, stocking.endsOfInput_le, fun some => ?_⟩
    exact announces.delivering.perm all (isOver some)
  · rw [← reached.ends.length_eq]
    exact (joined some).count
  · rw [← reached.ends.length_eq]
    exact (joined some).seen
  · exact announcing.mem_of_finished ended
  · exact stocking.filled_eq_nil ended
  · obtain ⟨stored, handing⟩ := announces.handing sized goesOn
    exact handing.finished stocking ended
  · have knows := reached.knows (by simp only [Coordinator.IsCalm, returned])
    have next := knows.next
    simp only [Dump.IsAtNext, returned] at next
    have some := announcing.mem_of_finished (knows.isDone next).storer
    have positive := List.count_pos_iff.mpr some
    have few := stocking.endsOfInput_le
    rw [← announcing.count_eq] at few
    omega
  · rintro ⟨worker, member, failed⟩ some
    refine failed fun cause phase => ?_
    cases (isOver some worker member).symm.trans phase

/-- The small job puts the end of input once. -/
theorem Job.small_announced_once : (Job.small 2).settings.Stands ∧
    ∃ offered put states world, (Job.small 2).Announces True {} offered put states world ∧
      put.count .endOfInput = 1 ∧
      (∀ worker ∈ world.dump.workers, worker.phase = .finished) ∧
      world.dump.coordinator.state = .terminated true := by
  obtain ⟨actions, log, result, reached, returned⟩ := Job.small_ends
  obtain ⟨offered, put, states, announces⟩ := reached.announces
  obtain ⟨-, workers, -, once, -, -, -, terminated⟩ :=
    announces.announced_once Job.small_stands
  have one := once result returned
  have some : .endOfInput ∈ put := List.count_pos_iff.mp (by rw [one]; exact Nat.one_pos)
  exact ⟨Job.small_stands, offered, put, states, _, announces, one, (workers some).1,
    terminated _ returned⟩

end TreeExport

import TreeExport.Proofs.Dump.Stock

/-!
# What is put into the queue of full buffers

`Job.Announces` holds of a world that some order of steps leads to, and tells which buffers the
workers set out to submit on the way, what was put into the queue of full buffers, and which states
the run has been in.  What was put there are buffers and, behind all of them, the ends of input that
sort-and-store has received or will receive (`Dump.Announcing`); no end of input is signalled before
the coordinator has seen all workers end (`Dump.HasJoinedAll`).
-/

namespace TreeExport

variable {σ : Type}

/-- The buffer that an operation has yet to put into the queue of full buffers, if there is one. -/
def Pool.Call.offering : Pool.Call → List Buffer
  | submit buffer => [buffer]
  | countFull buffer => [buffer]
  | offerFull buffer _ => [buffer]
  | _ => []

namespace Worker

/-- The buffer that a worker is about to submit, if there is one. -/
def offering (worker : Worker) : List Buffer :=
  (worker.call?.map Pool.Call.offering).getD []

/-- The buffer that a worker sets out to submit with a step, if it was not submitting one. -/
def begins (worker after : Worker) : List Buffer :=
  if worker.offering = [] then after.offering else []

end Worker

namespace Dump

/-- The buffer that some worker sets out to submit with a step. -/
def begins (dump after : Dump σ) : Action → List Buffer
  | .worker id _ =>
    match dump.workers[id]?, after.workers[id]? with
    | some worker, some worked => worker.begins worked
    | _, _ => []
  | _ => []

/-- What a step puts into the queue of full buffers. -/
def hands (dump after : Dump σ) : List FullItem :=
  dump.shared.pool.fulls.gained after.shared.pool.fulls

/-- The state that a step brings the run into, if it is not the one before. -/
def enters (dump after : Dump σ) : List RunState :=
  if after.coordinator.state = dump.coordinator.state then [] else [after.coordinator.state]

/-- The number of ends of input that are in the queue or have been received. -/
def endsOfInput (dump : Dump σ) : Nat :=
  dump.shared.pool.fulls.items.count .endOfInput + dump.storer.marks

end Dump

variable {job : Job σ} {assured : Prop} {files₀ : Files} {offered : List Buffer}
  {put : List FullItem} {states : List RunState} {world : World σ}

section Histories

variable [RecordSource σ]

/-- Some steps, one after the other, lead from the opening of the store to a world.  On the way the
workers set out to submit the buffers `offered`, the items `put` were put into the queue of full
buffers, and the run was in `states`, all in order. -/
inductive Job.Announces (job : Job σ) (assured : Prop) (files₀ : Files) :
    List Buffer → List FullItem → List RunState → World σ → Prop
  | opened {writer : Store.Writer} {files : Files} (time started : Moment)
      (opens : (Store.Writer.openAt job.directory).runOn time files₀ = (.ok writer, files)) :
      Announces job assured files₀ [] [] [.starting] ⟨.start job writer started, files⟩
  | step {offered : List Buffer} {put : List FullItem} {states : List RunState}
      {world after : World σ} {action : Action}
      (before : Announces job assured files₀ offered put states world)
      (step : world.Step job assured action after) :
      Announces job assured files₀ (offered ++ world.dump.begins after.dump action)
        (put ++ world.dump.hands after.dump) (states ++ world.dump.enters after.dump) after

theorem Job.Announces.reaches (announces : job.Announces assured files₀ offered put states world) :
    ∃ actions log, job.Reaches assured files₀ actions log world := by
  induction announces with
  | opened time started opens => exact ⟨[], [], .opened time started opens⟩
  | step before step ih =>
    obtain ⟨actions, log, reached⟩ := ih
    exact ⟨_, _, reached.step step⟩

theorem Job.Reaches.announces {actions : List Action} {log : List (Nat × Record)}
    (reached : job.Reaches assured files₀ actions log world) :
    ∃ offered put states, job.Announces assured files₀ offered put states world := by
  induction reached with
  | opened time started opens => exact ⟨_, _, _, .opened time started opens⟩
  | step before step ih =>
    obtain ⟨offered, put, states, announces⟩ := ih
    exact ⟨_, _, _, announces.step step⟩

/-- What holds of every opened world, and what every step keeps, holds of every world that is
announced. -/
@[elab_as_elim] theorem Job.Announces.rec_moves
    {motive : ∀ {offered put states world},
      job.Announces assured files₀ offered put states world → Prop}
    (opened : ∀ {writer files} (time started : Moment)
      (opens : (Store.Writer.openAt job.directory).runOn time files₀ = (.ok writer, files)),
        motive (.opened time started opens))
    (move : ∀ {offered put states world action after time}
      (before : job.Announces assured files₀ offered put states world)
      (step : world.Step job assured action after),
        Dump.Moves job assured time world.dump world.files action after.dump after.files →
          motive before → motive (before.step step))
    (announces : job.Announces assured files₀ offered put states world) : motive announces := by
  induction announces with
  | opened time started opens => exact opened time started opens
  | step before step ih =>
    obtain ⟨actions, log, reached⟩ := before.reaches
    have ends := reached.ends
    cases step with
    | mk time possible steady =>
      exact move before (.mk time possible steady) (Dump.moves_of_step ends possible rfl steady) ih

end Histories

/-! ## What a step puts into the queue of full buffers -/

theorem Pool.Fills.fulls {stopped : Prop} {pool after : Pool} {held heldAfter : Nat}
    (fills : Fills stopped pool held after heldAfter) :
    after.fulls.items = pool.fulls.items ∨
      ∃ buffer, after.fulls.items = pool.fulls.items ++ [.buffer buffer] := by
  cases fills with
  | quiet empties fulls same => exact .inl fulls
  | takes first fulls more => exact .inl fulls
  | submits last empties less => exact .inr ⟨_, last⟩
  | givesBack last fulls less => exact .inl fulls
  | drops empties fulls less why => exact .inl fulls

/-- Only placing the end of input puts something there that is no buffer. -/
theorem Pool.Call.Advances.fulls {pool after : Pool} {cancelled : Bool} {call : Pool.Call}
    {progress : Pool.Progress} (step : Pool.Call.Advances pool cancelled call after progress)
    (kind : call.kind = .signal ∨ call.kind = .drain) :
    after.fulls.items = pool.fulls.items ∨
      call = .placeEnd ∧ after.fulls.items = pool.fulls.items ++ [.endOfInput] := by
  cases step with
  | placeEnd room => exact .inr ⟨rfl, rfl⟩
  | signalTwice | signalEnd | noRoomForEnd | drainFirst | drainDone | drained => exact .inl rfl
  | _ => rcases kind with other | other <;> cases other

/-- Sort-and-store only takes out of the queue of full buffers, and it ends if it takes the end of
input. -/
theorem Storer.Moves.takes {assured : Prop} {time : Moment} {storer after : Storer}
    {pool poolAfter : Pool} {files changed : Files}
    (step : Storer.Moves assured time storer pool files after poolAfter changed) :
    ∃ taken, pool.fulls.items = taken ++ poolAfter.fulls.items ∧
      taken.count .endOfInput = after.marks := by
  by_cases isOver : after.phase = .finished
  · refine ⟨[.endOfInput], (step.takesEnd isOver).1, ?_⟩
    simp only [Storer.marks, isOver, List.count_singleton_self]
  · have none := Storer.marks_eq_zero isOver
    cases step.empties isOver with
    | @takes buffer first empties more => exact ⟨[.buffer buffer], first, none.symm⟩
    | quiet empties fulls same => exact ⟨[], fulls.symm, none.symm⟩
    | givesBack last fulls less => exact ⟨[], fulls.symm, none.symm⟩
    | drops empties fulls less why => exact ⟨[], fulls.symm, none.symm⟩

namespace Dump

variable {dump after : Dump σ} {filled : List Buffer} {marks : Nat} {time : Moment}
  {files changed : Files} {action : Action}

theorem Stocking.endsOfInput_eq (stocking : dump.Stocking job filled marks) :
    dump.endsOfInput = marks + dump.storer.marks := by
  have none : (filled.map FullItem.buffer).count .endOfInput = 0 := by
    refine List.count_eq_zero.mpr fun member => ?_
    obtain ⟨buffer, -, same⟩ := List.mem_map.mp member
    cases same
  rw [endsOfInput, stocking.fulls, List.count_append, none, List.count_replicate_self, Nat.zero_add]

/-- The coordinator has seen all workers end. -/
structure HasJoinedAll (dump : Dump σ) : Prop where
  count : dump.coordinator.workersDone = dump.workers.length
  seen : ∀ id < dump.workers.length, dump.HasSeen (.transform id)

/-- What was put into the queue of full buffers are buffers and behind them the ends of input, and the
end is not signalled before all workers have been seen to end. -/
structure Announcing (put : List FullItem) (dump : Dump σ) : Prop where
  sent : ∃ sent : List Buffer,
    put = sent.map .buffer ++ List.replicate dump.endsOfInput .endOfInput
  joined : dump.shared.pool.ended = true → dump.HasJoinedAll

/-! ### All workers have been seen to end -/

/-- A coordinator that has counted as many workers as there are has seen all of them end. -/
theorem Knows.hasJoinedAll (knows : dump.Knows) (ends : dump.Ends job)
    (count : dump.coordinator.workersDone = dump.workers.length) : dump.HasJoinedAll := by
  refine ⟨count, fun id below => ?_⟩
  by_contra unseen
  have here := List.getElem?_eq_getElem below
  have fewer := knows.lt_of_unseen (List.mem_of_getElem? here) (by rwa [ends.id_eq here])
  exact absurd count (Nat.ne_of_lt fewer)

/-- Once all workers have been seen to end that stays so. -/
theorem HasJoinedAll.of_same (joined : dump.HasJoinedAll)
    (count : after.coordinator.workersDone = dump.coordinator.workersDone)
    (workers : after.workers.length = dump.workers.length)
    (fewer : after.coordinator.outstanding ⊆ dump.coordinator.outstanding) :
    after.HasJoinedAll := by
  refine ⟨?_, fun id below still => joined.seen id (workers ▸ below) (fewer still)⟩
  rw [count, workers]
  exact joined.count

variable [RecordSource σ]

theorem HasJoinedAll.move (joined : dump.HasJoinedAll)
    (step : Moves job assured time dump files action after changed) : after.HasJoinedAll := by
  have fewer := step.outstanding_subset
  cases step with
  | download step => exact joined.of_same rfl rfl fewer
  | worker here step => exact joined.of_same rfl List.length_set fewer
  | storer step => exact joined.of_same rfl rfl fewer
  | join step =>
    cases step with
    | worker phase here there isOver more =>
      exact absurd here (joined.seen _ (List.getElem?_eq_some_iff.mp there).1)
    | lastWorker phase here there isOver last =>
      exact absurd here (joined.seen _ (List.getElem?_eq_some_iff.mp there).1)
    | _ => exact joined.of_same rfl rfl fewer
  | coordinate step =>
    have count := step.workersDone_eq
    cases step with
    | @cancelled _ stage _ phase =>
      have length := congrArg List.length (map_cancel_workers (fun _ => rfl : ∀ worker : Worker,
        Worker.id { worker with cancelled := true } = worker.id) dump stage)
      rw [List.length_map, List.length_map] at length
      exact joined.of_same count length fewer
    | _ => exact joined.of_same count rfl fewer

/-- The end of input is signalled only when all workers have been seen to end. -/
theorem Moves.ended (step : Moves job assured time dump files action after changed)
    (ends : dump.Ends job) (now : after.shared.pool.ended = true)
    (before : dump.shared.pool.ended = false) :
    ∃ call, dump.coordinator.phase = .signalling call := by
  have same (kept : after.shared.pool.ended = dump.shared.pool.ended) :
      ∃ call, dump.coordinator.phase = .signalling call := by
    rw [kept, before] at now
    cases now
  have shaped := ends.coordinator
  cases step with
  | download step => exact same rfl
  | worker here step => exact same step.pool_eq.2.2
  | storer step => exact same step.pool_eq.2.2
  | join step => cases step <;> exact same rfl
  | coordinate step =>
    cases step with
    | signalling phase advance => exact ⟨_, phase⟩
    | signalled phase advance => exact ⟨_, phase⟩
    | signalFailed phase advance => exact ⟨_, phase⟩
    | draining phase advance | drained phase advance | drainFailed phase advance =>
      simp only [Coordinator.IsShaped, phase] at shaped
      exact same (advance.ended_eq (by rw [shaped]; decide))
    | @cancelled _ stage _ phase =>
      exact same (congrArg (fun shared => shared.pool.ended) (cancel_shared dump stage))
    | _ => exact same rfl

/-! ### One end of input -/

omit [RecordSource σ] in
theorem announcing_of_append {more : List FullItem}
    (items : after.shared.pool.fulls.items = dump.shared.pool.fulls.items ++ more)
    (sent : ∃ sent : List Buffer,
      put ++ more = sent.map .buffer ++ List.replicate after.endsOfInput .endOfInput)
    (joined : after.shared.pool.ended = true → after.HasJoinedAll) :
    after.Announcing (put ++ dump.hands after) := by
  rw [hands, Queue.gained_of_append items]
  exact ⟨sent, joined⟩

omit [RecordSource σ] in
/-- Nobody does anything with the queue of full buffers. -/
theorem Announcing.quiet (announcing : dump.Announcing put)
    (items : after.shared.pool.fulls.items = dump.shared.pool.fulls.items)
    (marks : after.storer.marks = dump.storer.marks)
    (joined : after.shared.pool.ended = true → after.HasJoinedAll) :
    after.Announcing (put ++ dump.hands after) := by
  refine announcing_of_append (items.trans (List.append_nil _).symm) ?_ joined
  rw [List.append_nil, endsOfInput, items, marks]
  exact announcing.sent

omit [RecordSource σ] in
/-- A worker submits buffers only as long as there is no end of input. -/
theorem Announcing.worker {id : Nat} {worker worked : Worker} {shared : Shared}
    (announcing : dump.Announcing put) (ends : dump.Ends job)
    (stocking : dump.Stocking job filled marks) (here : dump.workers[id]? = some worker)
    (step : Worker.Moves job.extraction worker dump.shared worked shared)
    (pool : after.shared.pool = shared.pool) (storer : after.storer = dump.storer)
    (joined : after.shared.pool.ended = true → after.HasJoinedAll) :
    after.Announcing (put ++ dump.hands after) := by
  have member := List.mem_of_getElem? here
  rcases (step.fills (ends.shaped worker member)).fulls with same | ⟨buffer, last⟩
  · exact announcing.quiet (by rw [pool, same]) (by rw [storer]) joined
  · have goingOn : dump.shared.pool.ended = false := by
      refine Bool.eq_false_iff.mpr fun late => ?_
      exact step.phase_ne_finished (stocking.isOver late worker member)
    have single := stocking.single
    rw [goingOn, if_neg Bool.false_ne_true] at single
    have none : dump.endsOfInput = 0 := by
      rw [stocking.endsOfInput_eq]
      omega
    have noneAfter : after.endsOfInput = 0 := by
      rw [← none, endsOfInput, endsOfInput, pool, storer, last, List.count_append,
        List.count_singleton]
      rfl
    obtain ⟨sent, all⟩ := announcing.sent
    rw [none, List.replicate_zero, List.append_nil] at all
    refine announcing_of_append (by rw [pool, last]) ⟨sent ++ [buffer], ?_⟩ joined
    rw [all, noneAfter, List.map_append, List.replicate_zero, List.append_nil]
    rfl

omit [RecordSource σ] in
theorem hands_of_suffix {taken : List FullItem}
    (items : dump.shared.pool.fulls.items = taken ++ after.shared.pool.fulls.items) :
    dump.hands after = [] :=
  Queue.gained_of_suffix items

omit [RecordSource σ] in
/-- What sort-and-store takes out of the queue it has received. -/
theorem Announcing.storer {storer : Storer} {pool : Pool} (announcing : dump.Announcing put)
    (step : Storer.Moves assured time dump.storer dump.shared.pool files storer pool changed)
    (samePool : after.shared.pool = pool) (sameStorer : after.storer = storer)
    (joined : after.shared.pool.ended = true → after.HasJoinedAll) :
    after.Announcing (put ++ dump.hands after) := by
  have unfinished := Storer.marks_eq_zero step.phase_ne_finished
  obtain ⟨taken, items, received⟩ := step.takes
  have same : after.endsOfInput = dump.endsOfInput := by
    rw [endsOfInput, endsOfInput, samePool, sameStorer, items, unfinished, List.count_append,
      received, Nat.add_zero, Nat.add_comm]
  rw [hands_of_suffix (samePool ▸ items), List.append_nil]
  exact ⟨same ▸ announcing.sent, joined⟩

omit [RecordSource σ] in
/-- The coordinator places the end of input where there is none yet. -/
theorem Announcing.signal {call : Pool.Call} {pool : Pool} {progress : Pool.Progress}
    (announcing : dump.Announcing put) (stocking : dump.Stocking job filled marks)
    (signals : dump.Signals marks) (ends : dump.Ends job)
    (phase : dump.coordinator.phase = .signalling call)
    (advance : Pool.Call.Advances dump.shared.pool false call pool progress)
    (samePool : after.shared.pool = pool) (storer : after.storer = dump.storer)
    (joined : after.shared.pool.ended = true → after.HasJoinedAll) :
    after.Announcing (put ++ dump.hands after) := by
  have shaped := ends.coordinator
  simp only [Coordinator.IsShaped, phase] at shaped
  rcases advance.fulls (.inl shaped) with same | ⟨rfl, last⟩
  · exact announcing.quiet (by rw [samePool, same]) (by rw [storer]) joined
  · simp only [Signals, phase] at signals
    have none : dump.endsOfInput = 0 := by rw [stocking.endsOfInput_eq, signals.2]
    have one : after.endsOfInput = dump.endsOfInput + 1 := by
      rw [endsOfInput, endsOfInput, samePool, storer, last, List.count_append,
        List.count_singleton_self]
      omega
    obtain ⟨sent, all⟩ := announcing.sent
    rw [none, List.replicate_zero, List.append_nil] at all
    refine announcing_of_append (by rw [samePool, last]) ⟨sent, ?_⟩ joined
    rw [one, none, all]
    rfl

omit [RecordSource σ] in
theorem Announcing.coordinate (announcing : dump.Announcing put)
    (stocking : dump.Stocking job filled marks) (signals : dump.Signals marks)
    (ends : dump.Ends job) (step : dump.Coordinates assured time files after changed)
    (joined : after.shared.pool.ended = true → after.HasJoinedAll) :
    after.Announcing (put ++ dump.hands after) := by
  have shaped := ends.coordinator
  cases step with
  | signalling phase advance =>
    exact announcing.signal stocking signals ends phase advance rfl rfl joined
  | signalled phase advance =>
    exact announcing.signal stocking signals ends phase advance rfl rfl joined
  | signalFailed phase advance =>
    exact announcing.signal stocking signals ends phase advance rfl rfl joined
  | draining phase advance | drained phase advance | drainFailed phase advance =>
    simp only [Coordinator.IsShaped, phase] at shaped
    rcases advance.fulls (.inr shaped) with same | ⟨rfl, -⟩
    · exact announcing.quiet same rfl joined
    · cases shaped
  | @cancelled _ stage _ phase =>
    refine announcing.quiet ?_ ?_ joined
    · exact congrArg (fun shared => shared.pool.fulls.items) (cancel_shared dump stage)
    · cases stage <;> rfl
  | _ => exact announcing.quiet rfl rfl joined

theorem Announcing.move (announcing : dump.Announcing put)
    (stocking : dump.Stocking job filled marks) (signals : dump.Signals marks)
    (ends : dump.Ends job) (knows : dump.coordinator.IsCalm → dump.Knows)
    (step : Moves job assured time dump files action after changed) :
    after.Announcing (put ++ dump.hands after) := by
  have joined (now : after.shared.pool.ended = true) : after.HasJoinedAll := by
    refine HasJoinedAll.move ?_ step
    cases before : dump.shared.pool.ended with
    | true => exact announcing.joined before
    | false =>
      obtain ⟨call, phase⟩ := step.ended ends now before
      have known := knows (by simp only [Coordinator.IsCalm, phase])
      have next := known.next
      simp only [IsAtNext, phase] at next
      exact known.hasJoinedAll ends next
  cases step with
  | download step => exact announcing.quiet rfl rfl joined
  | worker here step => exact announcing.worker ends stocking here step rfl rfl joined
  | storer step => exact announcing.storer step rfl rfl joined
  | join step => cases step <;> exact announcing.quiet rfl rfl joined
  | coordinate step => exact announcing.coordinate stocking signals ends step joined

omit [RecordSource σ] in
theorem announcing_start (job : Job σ) (writer : Store.Writer) (time : Moment) :
    (start job writer time).Announcing [] := by
  refine ⟨⟨[], rfl⟩, fun ended => ?_⟩
  cases ended

end Dump

variable [RecordSource σ]

/-- In every world that is announced the ends of input are behind the buffers, and none is signalled
before all workers have been seen to end. -/
theorem Job.Announces.announcing (announces : job.Announces assured files₀ offered put states world)
    (workers : 0 < job.settings.workers) : world.dump.Announcing put := by
  induction announces using Job.Announces.rec_moves with
  | opened time started opens => exact Dump.announcing_start job _ started
  | move before _ step ih =>
    obtain ⟨actions, log, reached⟩ := before.reaches
    obtain ⟨filled, marks, stocking, signals⟩ := reached.stocking workers
    exact ih.move stocking signals reached.ends reached.knows step

end TreeExport

import TreeExport.Proofs.Dump.Downloading
import TreeExport.Proofs.Dump.Stock

/-!
# The work that is left

Every step takes from the work that is left (`Dump.Moves.work_lt`): each record, batch, buffer and
stage is the occasion of a bounded number of steps, and what one party hands on counts for less with
the other.  So no run goes on for ever.
-/

namespace TreeExport

/-! ## The pool -/

/-- The work on what is in a buffer. -/
def Buffer.load (buffer : Buffer) : Nat :=
  if buffer.batch.isEmpty then 0 else 21

/-- The work on an item of the queue of full buffers. -/
def FullItem.work : FullItem → Nat
  | .buffer _ => 12
  | .endOfInput => 0

namespace Pool

/-- The work on what is in the queues of a pool. -/
def work (pool : Pool) : Nat :=
  total (pool.empties.items.map fun buffer => 2 + buffer.load) +
    total (pool.fulls.items.map FullItem.work)

/-- The work that an operation has left. -/
def Call.work : Call → Nat
  | .takeEmpty .check => 4
  | .takeEmpty .wait => 3
  | .tookEmpty buffer => 2 + buffer.load
  | .submit _ => 21
  | .countFull _ => 20
  | .offerFull _ .check => 19
  | .offerFull _ .wait => 18
  | .recountHeld _ => 1
  | .takeFull .check => 2
  | .takeFull .wait => 1
  | .tookFull _ => 12
  | .giveBack _ => 10
  | .offerEmpty buffer .check => 9 + buffer.load
  | .offerEmpty buffer .wait => 8 + buffer.load
  | .reclaimHeld _ => 1
  | .signalEnd => 7
  | .placeEnd => 6
  | .drain _ => 1
  | .drained _ => 2

/-- The work that an answer gives. -/
def Answer.work : Answer → Nat
  | .buffer held => 1 + held.load
  | .item (.buffer _) => 11
  | .item .endOfInput => 0
  | .done => 5
  | .released _ => 0

/-- The work that is left after a step of an operation. -/
def Progress.work : Progress → Nat
  | .going call => call.work
  | .answered (.ok answer) => answer.work
  | .answered (.error _) => 0

variable {pool after : Pool} {cancelled : Bool} {call : Call} {progress : Progress}

@[simp] theorem work_transfer (pool : Pool) (source target : Slot) :
    (pool.transfer source target).work = pool.work := rfl

theorem Call.Advances.work_lt (step : Advances pool cancelled call after progress) :
    after.work + progress.work < pool.work + call.work := by
  cases step with
  | @acquireStopped attempt => cases attempt <;> simp [Progress.work, Call.work]
  | acquireReady => simp [Progress.work, Call.work]
  | acquireFirst first =>
    simp only [Pool.work, first, List.map_cons, total_cons, Progress.work, Call.work]
    omega
  | acquired => simp [Progress.work, Call.work, Answer.work]
  | submitLate => simp [Progress.work, Call.work]
  | submit => simp [Progress.work, Call.work]
  | countFull => simp [Progress.work, Call.work]
  | @submitStopped attempt => cases attempt <;> simp [Progress.work, Call.work]
  | submitReady => simp [Progress.work, Call.work]
  | submitted =>
    simp only [Pool.work, List.map_append, List.map_cons, List.map_nil, total_append, total_cons,
      total_nil, FullItem.work, Progress.work, Answer.work, Call.work]
    omega
  | recountHeld => simp [Progress.work, Call.work]
  | @fetchStopped attempt => cases attempt <;> simp [Progress.work, Call.work]
  | fetchReady => simp [Progress.work, Call.work]
  | fetchFirst first =>
    simp only [Pool.work, first, List.map_cons, total_cons, FullItem.work, Progress.work,
      Call.work]
    omega
  | fetchEnd first =>
    simp only [Pool.work, first, List.map_cons, total_cons, FullItem.work, Progress.work,
      Answer.work, Call.work]
    omega
  | fetched => simp [Progress.work, Call.work, Answer.work]
  | giveBack buffer =>
    have empty : ({ buffer with batch := buffer.batch.clear } : Buffer).load = 0 := rfl
    simp [Progress.work, Call.work, empty]
  | @giveBackStopped attempt =>
    cases attempt <;>
    · simp only [Progress.work, Call.work]
      omega
  | giveBackReady => simp [Progress.work, Call.work]
  | givenBack =>
    simp only [Pool.work, List.map_append, List.map_cons, List.map_nil, total_append, total_cons,
      total_nil, Progress.work, Answer.work, Call.work]
    omega
  | reclaimHeld => simp [Progress.work, Call.work]
  | signalTwice => simp [Progress.work, Call.work]
  | signalEnd => simp [Pool.work, Progress.work, Call.work]
  | placeEnd =>
    simp only [Pool.work, List.map_append, List.map_cons, List.map_nil, total_append, total_cons,
      total_nil, FullItem.work, Progress.work, Answer.work, Call.work]
    omega
  | noRoomForEnd => simp [Progress.work, Call.work]
  | drainFirst first =>
    simp only [Pool.work, first, List.map_cons, total_cons, Progress.work, Call.work]
    omega
  | drainDone => simp [Progress.work, Call.work, Answer.work]
  | drained => simp [Progress.work, Call.work]

/-- What somebody does who fills buffers takes from his own work alone, if the empty ones are
blank. -/
theorem Call.Advances.work_lt_alone (step : Advances pool cancelled call after progress)
    (kind : call.kind = .acquire ∨ call.kind = .submit ∨ call.kind = .giveBack)
    (blank : ∀ buffer ∈ pool.empties.items, buffer.load = 0) : progress.work < call.work := by
  cases step with
  | @acquireStopped attempt => cases attempt <;> simp [Progress.work, Call.work]
  | acquireFirst first =>
    have empty := blank _ (first ▸ List.mem_cons_self)
    simp [Progress.work, Call.work, empty]
  | @submitStopped attempt => cases attempt <;> simp [Progress.work, Call.work]
  | giveBack buffer =>
    have empty : ({ buffer with batch := buffer.batch.clear } : Buffer).load = 0 := rfl
    simp [Progress.work, Call.work, empty]
  | @giveBackStopped attempt =>
    cases attempt <;>
    · simp only [Progress.work, Call.work]
      omega
  | givenBack =>
    simp only [Progress.work, Answer.work, Call.work]
    omega
  | acquireReady | acquired | submitLate | submit | countFull | submitReady | submitted | recountHeld
  | giveBackReady | reclaimHeld =>
    simp [Progress.work, Answer.work, Call.work]
  | _ => rcases kind with other | other | other <;> cases other

end Pool

/-! ## The stages -/

/-- The work on an item of the raw queue. -/
def RawItem.work : RawItem → Nat
  | .batch content => 3 + 23 * content.records.length
  | .endOfStream => 1

/-- The work on what is in the raw queue. -/
def Queue.work (raw : Queue RawItem) : Nat :=
  total (raw.items.map RawItem.work)

/-- The work on batches that the source has left to hand out. -/
def dueWork (batches : List RecordBatch) : Nat :=
  total (batches.map fun batch => 7 + 23 * batch.records.length)

namespace Download

variable {σ : Type} [RecordSource σ]

/-- The work that a download has left. -/
noncomputable def work (request : BatchRequest) (download : Download σ) : Nat :=
  let later := dueWork (RecordSource.due request download.source)
  match download.phase with
  | .checking => 5 + later
  | .asking => 4 + later
  | .sending batch .check => 10 + 23 * batch.records.length + later
  | .sending batch .wait => 9 + 23 * batch.records.length + later
  | .ending .check => 3
  | .ending .wait => 2
  | _ => 0

theorem Moves.work_lt {request : BatchRequest} {download after : Download σ}
    {raw rawAfter : Queue RawItem} {rest : List Record} {failure : Option Error}
    (step : Moves request download raw after rawAfter)
    (expects : download.Expects request rest failure) :
    after.work request + rawAfter.work < download.work request + raw.work := by
  cases step with
  | checkStopped phase =>
    simp only [work, fail, phase]
    omega
  | checked phase => simp [work, phase]
  | sourceFailed phase =>
    simp only [work, fail, phase]
    omega
  | sourceEnded phase =>
    simp only [work, phase]
    omega
  | gotEmpty phase answer =>
    simp only [Expects, phase] at expects
    obtain ⟨batches, yields, -⟩ := expects
    obtain ⟨later, rfl, yieldsLater⟩ := yields.of_some answer
    simp only [work, phase, yields.due_eq, yieldsLater.due_eq, dueWork, List.map_cons, total_cons]
    omega
  | got phase answer =>
    simp only [Expects, phase] at expects
    obtain ⟨batches, yields, -⟩ := expects
    obtain ⟨later, rfl, yieldsLater⟩ := yields.of_some answer
    simp only [work, phase, yields.due_eq, yieldsLater.due_eq, dueWork, List.map_cons, total_cons]
    omega
  | @sendStopped batch attempt phase =>
    cases attempt <;>
    · simp only [work, fail, phase]
      omega
  | sendReady phase => simp [work, phase]
  | sent phase =>
    simp only [work, phase, Queue.work, List.map_append, List.map_cons, List.map_nil,
      total_append, total_cons, total_nil, RawItem.work]
    omega
  | @endStopped attempt phase => cases attempt <;> simp [work, fail, phase]
  | endReady phase => simp [work, phase]
  | ended phase =>
    simp only [work, phase, Queue.work, List.map_append, List.map_cons, List.map_nil,
      total_append, total_cons, total_nil, RawItem.work]
    omega

end Download

/-- The work that a worker has left. -/
def Worker.work (worker : Worker) : Nat :=
  match worker.phase with
  | .receiving .check => 26
  | .receiving .wait => 25
  | .processing rest => 27 + 23 * rest.length
  | .placing _ _ rest =>
    27 + 23 * rest.length +
      match worker.current with
      | none => 5
      | some buffer => 1 + buffer.load
  | .acquiring call _ _ rest => 27 + 23 * rest.length + call.work
  | .submitting call _ _ rest => 27 + 23 * rest.length + call.work
  | .forwarding .check => 25
  | .forwarding .wait => 24
  | .flushing => 22
  | .givingUp call => call.work
  | .finished => 0
  | .failed _ => 0

/-- A step takes from the work that a worker and the raw queue have left, if an operation on the
pool takes from its own work and from what is left `besides`. -/
theorem Worker.Moves.work_lt_of {extraction : Extraction} {worker after : Worker}
    {shared sharedAfter : Shared} {besides left : Nat}
    (step : Moves extraction worker shared after sharedAfter) (shaped : worker.IsShaped)
    (idle : sharedAfter.pool = shared.pool → left = besides)
    (calls : ∀ call progress, worker.call? = some call →
      Pool.Call.Advances shared.pool worker.cancelled call sharedAfter.pool progress →
        left + progress.work < besides + call.work) :
    after.work + sharedAfter.raw.work + left < worker.work + shared.raw.work + besides := by
  have load (buffer : Buffer) : buffer.load ≤ 21 := by
    rw [Buffer.load]
    split <;> omega
  cases step with
  | @receiveStopped attempt phase =>
    obtain rfl := idle rfl
    cases attempt <;> simp [work, goTo, phase]
  | receiveReady phase =>
    obtain rfl := idle rfl
    simp [work, goTo, phase]
  | received phase first =>
    obtain rfl := idle rfl
    simp only [work, goTo, phase, Queue.work, first, List.map_cons, total_cons, RawItem.work]
    omega
  | receivedEnd phase first =>
    obtain rfl := idle rfl
    simp only [work, goTo, phase, Queue.work, first, List.map_cons, total_cons, RawItem.work]
    omega
  | batchDone phase =>
    obtain rfl := idle rfl
    simp [work, goTo, phase]
  | passedOver live phase =>
    obtain rfl := idle rfl
    simp only [work, goTo, phase, List.length_cons]
    omega
  | malformed live phase =>
    obtain rfl := idle rfl
    simp only [work, goTo, phase]
    omega
  | unencodable live phase =>
    obtain rfl := idle rfl
    simp only [work, goTo, phase]
    omega
  | encoded live phase =>
    obtain rfl := idle rfl
    simp only [work, goTo, counting, phase, List.length_cons]
    cases worker.current with
    | none =>
      simp only
      omega
    | some buffer =>
      have := load buffer
      simp only
      omega
  | placeFirst phase nothing =>
    obtain rfl := idle rfl
    simp only [work, goTo, phase, nothing, Pool.Call.work]
    omega
  | placed live phase current =>
    obtain rfl := idle rfl
    simp only [work, phase, current]
    omega
  | tooLong phase current =>
    obtain rfl := idle rfl
    simp only [work, goTo, phase, current]
    omega
  | oversized phase current =>
    obtain rfl := idle rfl
    simp only [work, goTo, phase, current]
    omega
  | placeFull phase current noSpace nonempty =>
    obtain rfl := idle rfl
    simp only [work, phase, current, Buffer.load, nonempty, Pool.Call.work]
    simp
  | acquiring phase kind step =>
    have less := calls _ _ (by simp only [call?, phase]) step
    simp only [Pool.Progress.work] at less
    simp only [work, goTo, phase]
    omega
  | acquired phase kind step =>
    have less := calls _ _ (by simp only [call?, phase]) step
    simp only [Pool.Progress.work, Pool.Answer.work] at less
    simp only [work, phase]
    omega
  | acquireFailed phase kind step =>
    have less := calls _ _ (by simp only [call?, phase]) step
    simp only [Pool.Progress.work] at less
    simp only [work, goTo, phase]
    omega
  | submitting phase kind step =>
    have less := calls _ _ (by simp only [call?, phase]) step
    simp only [Pool.Progress.work] at less
    simp only [work, goTo, phase]
    omega
  | submitted phase kind step =>
    have less := calls _ _ (by simp only [call?, phase]) step
    simp only [IsShaped, phase] at shaped
    cases step with
    | submitted =>
      simp only [Pool.Progress.work, Pool.Answer.work] at less
      simp only [work, goTo, phase, shaped.2]
      omega
    | _ => cases kind
  | submitFailed phase kind step =>
    have less := calls _ _ (by simp only [call?, phase]) step
    simp only [Pool.Progress.work] at less
    simp only [work, goTo, phase]
    omega
  | @forwardStopped attempt phase =>
    obtain rfl := idle rfl
    cases attempt <;> simp [work, goTo, phase]
  | forwardReady phase =>
    obtain rfl := idle rfl
    simp [work, goTo, phase]
  | forwarded phase =>
    obtain rfl := idle rfl
    simp only [work, goTo, phase, Queue.work, List.map_append, List.map_cons, List.map_nil,
      total_append, total_cons, total_nil, RawItem.work]
    omega
  | flushNothing phase =>
    obtain rfl := idle rfl
    simp [work, goTo, phase]
  | flushEmpty phase =>
    obtain rfl := idle rfl
    simp [work, phase, Pool.Call.work]
  | flushLast phase =>
    obtain rfl := idle rfl
    simp [work, phase, Pool.Call.work]
  | givingUp phase kind step =>
    have less := calls _ _ (by simp only [call?, phase]) step
    simp only [Pool.Progress.work] at less
    simp only [work, goTo, phase]
    omega
  | gaveUp phase kind step =>
    have less := calls _ _ (by simp only [call?, phase]) step
    simp only [work, goTo, phase]
    omega
  | giveUpFailed phase kind step =>
    have less := calls _ _ (by simp only [call?, phase]) step
    simp only [Pool.Progress.work] at less
    simp only [work, goTo, phase]
    omega

theorem Worker.Moves.work_lt {extraction : Extraction} {worker after : Worker}
    {shared sharedAfter : Shared} (step : Moves extraction worker shared after sharedAfter)
    (shaped : worker.IsShaped) :
    after.work + sharedAfter.raw.work + sharedAfter.pool.work <
      worker.work + shared.raw.work + shared.pool.work :=
  step.work_lt_of shaped (congrArg Pool.work) fun _ _ _ advance => advance.work_lt

/-- The work that sort-and-store has left. -/
def Storer.work (storer : Storer) : Nat :=
  match storer.phase with
  | .acquiring call => call.work
  | .storing _ => 11
  | .returning call => call.work
  | .finished => 0
  | .failed _ => 0

theorem Storer.Moves.work_lt {assured : Prop} {time : Moment} {storer after : Storer}
    {pool poolAfter : Pool} {files changed : Files}
    (step : Moves assured time storer pool files after poolAfter changed) :
    after.work + poolAfter.work < storer.work + pool.work := by
  cases step with
  | stored phase done =>
    obtain ⟨entries, answer, -, -, rfl⟩ := store_ok done
    simp only [work, phase, Pool.Call.work]
    omega
  | storeFailed phase =>
    simp only [work, goTo, phase]
    omega
  | returned phase kind step =>
    have less := step.work_lt
    simp only [work, goTo, phase]
    have again : (Pool.Call.takeFull .check).work = 2 := rfl
    cases step with
    | givenBack =>
      simp only [Pool.Progress.work, Pool.Answer.work] at less
      dsimp only at less ⊢
      omega
    | _ => cases kind
  | fetching phase kind step | fetched phase kind step | ended phase kind step
  | fetchFailed phase kind step | returning phase kind step | returnFailed phase kind step =>
    have less := step.work_lt
    simp only [Pool.Progress.work, Pool.Answer.work] at less
    simp only [work, goTo, phase]
    omega

/-- The work that the coordinator has left. -/
def Coordinator.work (coordinator : Coordinator) : Nat :=
  let unseen := coordinator.outstanding.length
  match coordinator.phase with
  | .starting => 5 + 8 * unseen
  | .waiting => 4 + 8 * unseen
  | .signalling call => 4 + 8 * unseen + call.work
  | .draining call => 4 + 8 * unseen + call.work
  | .aborting _ => 3 + 2 * unseen
  | .cancelling _ left => 2 + unseen + left.length
  | .shuttingDown _ left => 1 + left.length
  | .closing => 1
  | .returned _ => 0

/-! ## The dump -/

namespace Dump

variable {σ : Type} [RecordSource σ] {job : Job σ} {assured : Prop} {time : Moment}
  {dump after : Dump σ} {files changed : Files} {action : Action}

/-- The work that all parties to a dump have left. -/
noncomputable def work (job : Job σ) (dump : Dump σ) : Nat :=
  dump.download.work job.request + total (dump.workers.map Worker.work) + dump.storer.work +
    dump.coordinator.work + dump.shared.raw.work + dump.shared.pool.work

/-- The work that all parties but the download have left. -/
def otherWork (dump : Dump σ) : Nat :=
  total (dump.workers.map Worker.work) + dump.storer.work + dump.coordinator.work +
    dump.shared.raw.work + dump.shared.pool.work

theorem work_eq (job : Job σ) (dump : Dump σ) :
    dump.work job = dump.download.work job.request + dump.otherWork := by
  simp only [work, otherWork]
  omega

omit [RecordSource σ] in
theorem otherWork_cancel (dump : Dump σ) (stage : Stage) :
    (dump.cancel stage).otherWork = dump.otherWork := by
  have same := map_cancel_workers (f := Worker.work) (fun _ => rfl) dump stage
  simp only [otherWork, same, cancel_coordinator, cancel_shared]
  cases stage <;> rfl

omit [RecordSource σ] in
theorem work_leaveRaw (ended receives : Bool) (raw : Queue RawItem) :
    (leaveRaw ended receives raw).work = raw.work := by
  simp only [Queue.work, leaveRaw_items]

omit [RecordSource σ] in
theorem length_filter_ne_lt {stages : List Stage} {stage : Stage} (here : stage ∈ stages) :
    (stages.filter (· != stage)).length < stages.length :=
  List.length_filter_lt_length_iff_exists.mpr ⟨stage, here, by simp⟩

omit [RecordSource σ] in
theorem Joins.work_lt {stage : Stage} (step : dump.Joins stage after) :
    after.coordinator.work < dump.coordinator.work := by
  cases step with
  | late phase here =>
    have shorter := length_filter_ne_lt here
    simp only [Coordinator.work, withCoordinator_coordinator, Coordinator.goTo, phase]
    omega
  | _ =>
    have shorter := length_filter_ne_lt ‹_ ∈ dump.coordinator.outstanding›
    simp only [Coordinator.work, withCoordinator_coordinator, Coordinator.joinDownload,
      Coordinator.noteWorker, Coordinator.joinStorer, Coordinator.goTo, Coordinator.tell,
      Coordinator.strike, Pool.Call.work, ‹dump.coordinator.phase = _›] at shorter ⊢
    omega

omit [RecordSource σ] in
theorem Coordinates.otherWork_lt (step : dump.Coordinates assured time files after changed) :
    after.otherWork < dump.otherWork := by
  cases step with
  | started phase =>
    simp only [otherWork, Coordinator.tell, Coordinator.work, phase, work_leaveRaw]
    omega
  | allSeen phase isOver =>
    simp only [otherWork, withCoordinator, Coordinator.goTo, Coordinator.tell, Coordinator.work, phase]
    omega
  | missed phase isOver =>
    simp only [otherWork, withCoordinator, Coordinator.goTo, Coordinator.work, phase]
    omega
  | signalling phase advance | signalled phase advance | signalFailed phase advance
  | draining phase advance | drained phase advance | drainFailed phase advance =>
    have less := advance.work_lt
    simp only [Pool.Progress.work] at less
    simp only [otherWork, withCoordinator, withPool, Coordinator.goTo, Coordinator.signalled,
      Coordinator.drained, Coordinator.tell, Coordinator.work, phase]
    omega
  | aborted phase =>
    simp only [otherWork, withCoordinator, Coordinator.work, phase]
    omega
  | cancelled phase =>
    rename_i cause stage left
    have same := otherWork_cancel dump stage
    simp only [otherWork, cancel_coordinator] at same
    simp only [otherWork, withCoordinator, Coordinator.goTo, Coordinator.work, phase, List.length_cons]
    omega
  | allCancelled phase =>
    simp only [otherWork, withCoordinator, Coordinator.goTo, Coordinator.work, phase, List.length_nil]
    omega
  | gaveUp phase =>
    simp only [otherWork, withCoordinator, Coordinator.giveUp, Coordinator.work, phase]
    omega
  | closed phase =>
    simp only [otherWork, withCoordinator, Coordinator.succeed, Coordinator.tell, Coordinator.work,
      phase]
    omega
  | closeFailed phase =>
    simp only [otherWork, withCoordinator, Coordinator.giveUp, Coordinator.work, phase]
    omega
  | closedNothing phase =>
    simp only [otherWork, withCoordinator, Coordinator.giveUp, Coordinator.work, phase]
    omega

/-- If the download takes from its own work with every step of its own, every step takes from that
and the work of the others. -/
theorem Moves.otherWork_lt {left : Download σ → Nat}
    (blind : ∀ (download : Download σ) (set : Bool),
      left { download with cancelled := set } = left download)
    (less : ∀ download raw,
      Download.Moves job.request dump.download dump.shared.raw download raw →
        left download + raw.work < left dump.download + dump.shared.raw.work)
    (ends : dump.Ends job) (step : Moves job assured time dump files action after changed) :
    left after.download + after.otherWork < left dump.download + dump.otherWork := by
  cases step with
  | download step =>
    have less := less _ _ step
    simp only [otherWork, work_leaveRaw]
    omega
  | @worker _ _ _ worked _ here step =>
    have less := step.work_lt (ends.shaped _ (List.mem_of_getElem? here))
    have exchanged := total_map_set (f := Worker.work) worked here
    simp only [otherWork, work_leaveRaw]
    omega
  | storer step =>
    have less := step.work_lt
    simp only [otherWork]
    omega
  | join step =>
    have less := step.work_lt
    cases step <;>
    · simp only [otherWork, withCoordinator]
      dsimp only [withCoordinator_coordinator] at less
      omega
  | coordinate step =>
    have less := step.otherWork_lt
    have same : left after.download = left dump.download := by
      cases step with
      | @cancelled _ stage _ phase =>
        cases stage with
        | download => exact blind dump.download true
        | _ => rfl
      | _ => rfl
    omega

/-- Every step takes from the work that is left. -/
theorem Moves.work_lt {rest : List Record} {failure : Option Error} (ends : dump.Ends job)
    (expects : dump.download.Expects job.request rest failure)
    (step : Moves job assured time dump files action after changed) :
    after.work job < dump.work job := by
  rw [work_eq, work_eq]
  exact step.otherWork_lt (fun _ _ => rfl) (fun _ _ step => step.work_lt expects) ends

end Dump

namespace Job

variable {σ : Type} [RecordSource σ]

/-- The work on a job, from the opening of its store on. -/
noncomputable def work (job : Job σ) : Nat :=
  (5 + dueWork (RecordSource.due job.request job.source)) + 26 * job.settings.workers + 2 +
    (5 + 8 * job.stages.length) + 2 * job.settings.budget.buffers

end Job

end TreeExport

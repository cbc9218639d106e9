import TreeExport.Proofs.Dump.Smooth

/-!
# The end of the stream

The download sends one marker after all batches, and every worker that receives it passes it on.
So there is at most one marker, in the raw queue or with a worker that is about to pass it on
(`Dump.Relaying`), no batch comes after it, and it is not lost as long as no stage fails.  A worker
that passes the marker on always finds room for it (`Dump.Relaying.items_eq_nil`).
-/

namespace TreeExport

variable {σ : Type}

/-- The number of markers that the download has sent. -/
def Download.marks (download : Download σ) : Nat :=
  match download.phase with
  | .finished => 1
  | _ => 0

namespace Worker

/-- The number of markers that the worker is about to pass on. -/
def forwards (worker : Worker) : Nat :=
  match worker.phase with
  | .forwarding _ => 1
  | _ => 0

/-- A worker that was about to pass the marker on has been cancelled, and the marker is lost. -/
def loses (worker after : Worker) : Bool :=
  match worker.phase, after.phase with
  | .forwarding _, .failed .cancelled => true
  | _, _ => false

/-- The number of markers that the worker has received. -/
def sees (worker : Worker) : Nat :=
  match worker.phase with
  | .forwarding _ => 1
  | .flushing => 1
  | .givingUp _ => 1
  | .finished => 1
  | _ => 0

end Worker

namespace Download

theorem marks_le (download : Download σ) : download.marks ≤ 1 := by
  unfold marks
  split
  · exact Nat.le_refl 1
  · exact Nat.zero_le 1

theorem marks_eq_zero {download : Download σ} (goesOn : download.phase ≠ .finished) :
    download.marks = 0 := by
  unfold marks
  split
  · next isOver => exact absurd isOver goesOn
  · rfl

end Download

namespace Worker

theorem forwards_eq_zero {worker : Worker} (failed : ¬ worker.IsWell) : worker.forwards = 0 := by
  unfold forwards
  split
  · next phase => exact absurd (fun cause => by rw [phase]; nofun) failed
  · rfl

theorem sees_eq_zero {worker : Worker} (failed : ¬ worker.IsWell) : worker.sees = 0 := by
  unfold sees
  split
  · next phase => exact absurd (fun cause => by rw [phase]; nofun) failed
  · next phase => exact absurd (fun cause => by rw [phase]; nofun) failed
  · next phase => exact absurd (fun cause => by rw [phase]; nofun) failed
  · next phase => exact absurd (fun cause => by rw [phase]; nofun) failed
  · rfl

theorem loses_eq_false {worker after : Worker} (well : after.IsWell) :
    worker.loses after = false := by
  unfold loses
  split
  · next failed => exact absurd failed (well _)
  · rfl

end Worker

/-! ## What a step does with the queue -/

/-- What a step of the download does with the raw queue. -/
inductive Download.Relays (raw : Queue RawItem) (after : Download σ) (rawAfter : Queue RawItem) :
    Prop
  | quiet (items : rawAfter.items = raw.items) (goesOn : after.phase ≠ .finished)
  | sends {batch : RecordBatch} (items : rawAfter.items = raw.items ++ [.batch batch])
      (goesOn : after.phase ≠ .finished)
  | ends (items : rawAfter.items = raw.items ++ [.endOfStream]) (isOver : after.phase = .finished)

theorem Download.Moves.relays [RecordSource σ] {request : BatchRequest}
    {download after : Download σ} {raw rawAfter : Queue RawItem}
    (step : Moves request download raw after rawAfter) : Relays raw after rawAfter := by
  cases step with
  | sent => exact .sends rfl nofun
  | ended => exact .ends rfl rfl
  | _ => exact .quiet rfl nofun

/-- What a step of a worker does with the raw queue. -/
inductive Worker.Relays (worker : Worker) (raw : Queue RawItem) (after : Worker)
    (rawAfter : Queue RawItem) : Prop
  | quiet (items : rawAfter.items = raw.items) (well : after.IsWell)
      (forwards : after.forwards = worker.forwards) (sees : after.sees = worker.sees)
  | takesBatch {batch : RecordBatch} (first : raw.items = .batch batch :: rawAfter.items)
      (well : after.IsWell) (forwards : after.forwards = worker.forwards)
      (sees : after.sees = worker.sees)
  | takesMark (first : raw.items = .endOfStream :: rawAfter.items) (well : after.IsWell)
      (forwards : after.forwards = worker.forwards + 1) (sees : after.sees = worker.sees + 1)
  | passesMark (last : rawAfter.items = raw.items ++ [.endOfStream]) (well : after.IsWell)
      (forwards : after.forwards + 1 = worker.forwards) (sees : after.sees = worker.sees)
  | fails (items : rawAfter.items = raw.items) (failed : ¬ after.IsWell)
      (loses : (worker.loses after).toNat = worker.forwards)

/-- What a step of a worker does with the raw queue.  Only one who is cancelled loses the marker. -/
theorem Worker.Moves.relays {extraction : Extraction} {worker after : Worker}
    {shared sharedAfter : Shared} (step : Moves extraction worker shared after sharedAfter) :
    Relays worker shared.raw after sharedAfter.raw := by
  cases step with
  | received phase first =>
    refine .takesBatch first (Worker.isWell_of_outcome rfl) ?_ ?_
    · simp only [forwards, goTo, phase]
    · simp only [sees, goTo, phase]
  | receivedEnd phase first =>
    refine .takesMark first (Worker.isWell_of_outcome rfl) ?_ ?_
    · simp only [forwards, goTo, phase]
    · simp only [sees, goTo, phase]
  | forwarded phase =>
    refine .passesMark rfl (Worker.isWell_of_outcome rfl) ?_ ?_
    · simp only [forwards, goTo, phase]
    · simp only [sees, goTo, phase]
  | receiveStopped | forwardStopped | malformed | unencodable | tooLong | oversized | acquireFailed |
      submitFailed | giveUpFailed =>
    refine .fails rfl (fun well => well _ rfl) ?_
    simp only [loses, forwards, goTo, ‹worker.phase = _›, Bool.toNat_true, Bool.toNat_false]
  | _ =>
    refine .quiet rfl (by rintro _ ⟨⟩) ?_ ?_
    · simp only [forwards, goTo, counting, ‹worker.phase = _›]
    · simp only [sees, goTo, counting, ‹worker.phase = _›]

/-! ## One marker -/

namespace Dump

/-- The worker that a step stops while he is about to pass the marker on. -/
def stops (dump after : Dump σ) : Action → List Nat
  | .worker id _ =>
    if dump.workers[id]?.any fun worker => after.workers[id]?.any worker.loses then [id] else []
  | _ => []

/-- Where the batches and the marker are that the download has sent and that are on their way:
batches come first, the marker that the download has sent is there unless it is one of the `stops`
that are lost, and whoever has received one leaves no batch behind. -/
structure Relaying (dump : Dump σ) (batches : List RecordBatch) (marks stops : Nat) : Prop where
  items : dump.shared.raw.items = batches.map .batch ++ List.replicate marks .endOfStream
  all : marks + total (dump.workers.map Worker.forwards) + stops = dump.download.marks
  behind : total (dump.workers.map Worker.sees) = 0 ∨
    batches = [] ∧ dump.download.phase = .finished
  none : dump.IsWell → stops = 0

variable {job : Job σ} {assured : Prop} {time : Moment} {dump after : Dump σ}
  {files changed : Files} {action : Action} {batches : List RecordBatch} {marks stops : Nat}

/-- The marker is in one place at most. -/
theorem Relaying.single (relaying : dump.Relaying batches marks stops) :
    marks + total (dump.workers.map Worker.forwards) ≤ dump.download.marks := by
  have all := relaying.all
  omega

/-- As long as no stage fails, the marker is not lost. -/
theorem Relaying.kept (relaying : dump.Relaying batches marks stops) (well : dump.IsWell) :
    marks + total (dump.workers.map Worker.forwards) = dump.download.marks := by
  rw [← relaying.all, relaying.none well, Nat.add_zero]

/-- A dump whose download and workers are as they were, and whose raw queue holds what it held,
relays what it relayed. -/
theorem Relaying.of_same (relaying : dump.Relaying batches marks stops)
    (download : after.download.phase = dump.download.phase)
    (forwards : after.workers.map Worker.forwards = dump.workers.map Worker.forwards)
    (sees : after.workers.map Worker.sees = dump.workers.map Worker.sees)
    (items : after.shared.raw.items = dump.shared.raw.items)
    (well : after.IsWell → dump.IsWell) : after.Relaying batches marks stops := by
  have marked : after.download.marks = dump.download.marks := by
    simp only [Download.marks, download]
  refine ⟨?_, ?_, ?_, fun still => relaying.none (well still)⟩
  · rw [items]
    exact relaying.items
  · rw [forwards, marked]
    exact relaying.all
  · rw [sees, download]
    exact relaying.behind

theorem Relaying.cancel (relaying : dump.Relaying batches marks stops) (stage : Stage) :
    (dump.cancel stage).Relaying batches marks stops := by
  refine relaying.of_same ?_ ?_ ?_ ?_ isWell_of_cancel
  · cases stage <;> rfl
  · exact map_cancel_workers (fun _ => rfl) dump stage
  · exact map_cancel_workers (fun _ => rfl) dump stage
  · exact congrArg (fun shared => shared.raw.items) (cancel_shared dump stage)

theorem Relaying.join {stage : Stage} (relaying : dump.Relaying batches marks stops)
    (step : dump.Joins stage after) : after.Relaying batches marks stops := by
  cases step <;> exact relaying.of_same rfl rfl rfl rfl fun well =>
    ⟨well.download, well.workers, well.storer⟩

theorem Relaying.coordinate (relaying : dump.Relaying batches marks stops)
    (step : dump.Coordinates assured time files after changed) :
    after.Relaying batches marks stops := by
  have well := step.isWell_before
  cases step with
  | started phase => exact relaying.of_same rfl rfl rfl (leaveRaw_items _ _ _) well
  | @cancelled _ stage _ phase =>
    exact (relaying.cancel stage).of_same rfl rfl rfl rfl fun still =>
      ⟨still.download, still.workers, still.storer⟩
  | _ => exact relaying.of_same rfl rfl rfl rfl well

variable [RecordSource σ]

theorem Relaying.move (relaying : dump.Relaying batches marks stops)
    (step : Moves job assured time dump files action after changed) :
    ∃ batches marks, after.Relaying batches marks (stops + (dump.stops after action).length) := by
  have well := step.isWell_before
  have items := relaying.items
  have all := relaying.all
  have behind := relaying.behind
  have none := relaying.none
  cases step with
  | @download _ downloaded raw step =>
    have goesOn := step.phase_ne_finished
    rw [Download.marks_eq_zero goesOn] at all
    have unseen : total (dump.workers.map Worker.sees) = 0 :=
      behind.resolve_right fun both => goesOn both.2
    obtain rfl : marks = 0 := by omega
    rw [List.replicate_zero, List.append_nil] at items
    cases step.relays with
    | quiet same later =>
      refine ⟨batches, 0, ?_, ?_, .inl unseen, fun still => none (well still)⟩
      · rw [leaveRaw_items, same, items, List.replicate_zero, List.append_nil]
      · rw [Download.marks_eq_zero later]
        exact all
    | @sends batch added later =>
      refine ⟨batches ++ [batch], 0, ?_, ?_, .inl unseen, fun still => none (well still)⟩
      · rw [leaveRaw_items, added, items, List.map_append, List.replicate_zero, List.append_nil]
        rfl
      · rw [Download.marks_eq_zero later]
        exact all
    | ends added isOver =>
      have one : downloaded.marks = 1 := by simp only [Download.marks, isOver]
      refine ⟨batches, 1, ?_, ?_, .inl unseen, fun still => none (well still)⟩
      · rw [leaveRaw_items, added, items]
        rfl
      · simp only [Dump.stops, List.length_nil]
        omega
  | @worker id side worker worked shared here step =>
    have forwardsSet := total_map_set (f := Worker.forwards) worked here
    have seesSet := total_map_set (f := Worker.sees) worked here
    have mine : worker.forwards ≤ total (dump.workers.map Worker.forwards) :=
      le_total_of_mem (List.mem_of_getElem? here)
    have lost : (dump.stops { dump with
        workers := dump.workers.set id worked
        shared := { shared with raw := leaveRaw worked.outcome?.isSome true shared.raw } }
        (.worker id side)).length = (worker.loses worked).toNat := by
      have there : (dump.workers.set id worked)[id]? = some worked := by
        rw [List.getElem?_set_self' , here]
        rfl
      simp only [Dump.stops, here, there, Option.any_some]
      cases worker.loses worked <;> rfl
    rw [lost]
    have kept (well' : worked.IsWell) : (worker.loses worked).toNat = 0 := by
      rw [Worker.loses_eq_false well']
      rfl
    cases step.relays with
    | quiet same fine forwards sees =>
      rw [kept fine]
      refine ⟨batches, marks, ?_, ?_, behind.imp_left fun unseen => ?_, fun still => none (well still)⟩
      · rw [leaveRaw_items, same, items]
      · dsimp only
        omega
      · dsimp only
        omega
    | @takesBatch batch first fine forwards sees =>
      rw [kept fine]
      cases batches with
      | nil =>
        rw [items, List.map_nil, List.nil_append] at first
        cases marks <;> cases first
      | cons next rest =>
        rw [items] at first
        obtain ⟨-, left⟩ := List.cons.inj first
        refine ⟨rest, marks, ?_, ?_, .inl ?_, fun still => none (well still)⟩
        · exact (leaveRaw_items _ _ _).trans left.symm
        · dsimp only
          omega
        · have unseen := behind.resolve_right fun both => List.cons_ne_nil _ _ both.1
          dsimp only
          omega
    | takesMark first fine forwards =>
      rw [kept fine]
      cases batches with
      | cons next rest =>
        rw [items] at first
        cases first
      | nil =>
        cases marks with
        | zero =>
          rw [items] at first
          cases first
        | succ more =>
          have isOver : dump.download.phase = .finished := by
            by_contra goesOn
            rw [Download.marks_eq_zero goesOn] at all
            omega
          rw [items] at first
          obtain ⟨-, left⟩ := List.cons.inj first
          refine ⟨[], more, ?_, ?_, .inr ⟨rfl, isOver⟩, fun still => none (well still)⟩
          · exact (leaveRaw_items _ _ _).trans left.symm
          · dsimp only
            omega
    | passesMark last fine forwards sees =>
      rw [kept fine]
      have one : dump.download.marks ≤ 1 := Download.marks_le dump.download
      obtain rfl : marks = 0 := by omega
      refine ⟨batches, 1, ?_, ?_, behind.imp_left fun unseen => ?_, fun still => none (well still)⟩
      · rw [leaveRaw_items, last, items, List.replicate_zero, List.append_nil]
        rfl
      · dsimp only
        omega
      · dsimp only
        omega
    | fails same failed loses =>
      have forwards : worked.forwards = 0 := Worker.forwards_eq_zero failed
      have sees : worked.sees = 0 := Worker.sees_eq_zero failed
      rw [loses]
      refine ⟨batches, marks, ?_, ?_, behind.imp_left fun unseen => ?_, fun still => ?_⟩
      · rw [leaveRaw_items, same, items]
      · dsimp only
        omega
      · dsimp only
        omega
      · exact absurd (still.workers worked (mem_set_of_getElem? worked here)) failed
  | storer step => exact ⟨batches, marks, relaying.of_same rfl rfl rfl rfl well⟩
  | join step => exact ⟨batches, marks, relaying.join step⟩
  | coordinate step => exact ⟨batches, marks, relaying.coordinate step⟩

omit [RecordSource σ] in
theorem relaying_start (job : Job σ) (writer : Store.Writer) (time : Moment) :
    (start job writer time).Relaying [] 0 0 := by
  refine ⟨rfl, ?_, .inl (total_workers_start job writer time fun _ => rfl), fun _ => rfl⟩
  rw [total_workers_start job writer time fun _ => rfl]
  rfl

end Dump

/-! ## Reachable worlds -/

variable [RecordSource σ] {job : Job σ} {assured : Prop} {files₀ : Files} {actions : List Action}
  {log : List (Nat × Record)} {world : World σ}

/-- In every world that is reached there is at most one marker, and no batch behind it. -/
theorem Job.Reaches.relaying (reached : job.Reaches assured files₀ actions log world) :
    ∃ batches marks stops, world.dump.Relaying batches marks stops := by
  induction reached using Job.Reaches.rec_moves with
  | opened time started opens => exact ⟨[], 0, 0, Dump.relaying_start job _ started⟩
  | move before _ step ih =>
    obtain ⟨batches, marks, stops, relaying⟩ := ih
    obtain ⟨left, ahead, later⟩ := relaying.move step
    exact ⟨left, ahead, _, later⟩

namespace Dump.Relaying

variable {dump : Dump σ} {batches : List RecordBatch} {marks stops : Nat}

omit [RecordSource σ] in
/-- While a worker is about to pass the marker on, the raw queue is empty. -/
theorem items_eq_nil (relaying : dump.Relaying batches marks stops) {worker : Worker} {attempt : Attempt}
    (member : worker ∈ dump.workers) (phase : worker.phase = .forwarding attempt) :
    dump.shared.raw.items = [] := by
  have forwards : worker.forwards ≤ total (dump.workers.map Worker.forwards) :=
    le_total_of_mem member
  have sees : worker.sees ≤ total (dump.workers.map Worker.sees) := le_total_of_mem member
  simp only [Worker.forwards, Worker.sees, phase] at forwards sees
  have single := relaying.single
  have one := dump.download.marks_le
  obtain rfl : marks = 0 := by omega
  have behind := relaying.behind.resolve_left fun unseen => by omega
  rw [relaying.items, behind.1]
  rfl

end Dump.Relaying

end TreeExport

import TreeExport.Proofs.Dump.Completion
import TreeExport.Proofs.Dump.Turns

/-!
# What passes through the raw queue

`Dump.Streams` holds of a dump that some order of steps leads to, where tokens may be set at any
moment, and tells what was put into the raw queue, what each worker has taken out, and which workers
were stopped while they were about to pass the marker on.  What was put in is what was taken out and
what is still there, in order; batches come before the marker, and so no worker ends well while a
batch is left (`stream_relayed`).
-/

namespace TreeExport

variable {σ : Type}

/-- The item is the marker. -/
def RawItem.isEnd : RawItem → Bool
  | .endOfStream => true
  | .batch _ => false

/-- How often a worker has taken the marker out. -/
def marksTaken (id : Nat) (got : List (Nat × RawItem)) : Nat :=
  got.countP fun receipt => receipt.1 == id && receipt.2.isEnd

namespace Dump

/-- What a step puts into the raw queue. -/
def puts (dump after : Dump σ) : List RawItem :=
  after.shared.raw.items.drop dump.shared.raw.items.length

/-- What a step of a worker takes out of the raw queue. -/
def takes (dump after : Dump σ) : Action → List (Nat × RawItem)
  | .worker id _ =>
    (dump.shared.raw.items.take
      (dump.shared.raw.items.length - after.shared.raw.items.length)).map fun item => (id, item)
  | _ => []

/-- Steps in some order, between which tokens are set, lead to a dump: `put` was put into the raw
queue, `got` was taken out by workers, and the workers `stopped` were stopped while they were about
to pass the marker on. -/
inductive Streams [RecordSource σ] (job : Job σ) :
    List RawItem → List (Nat × RawItem) → List Nat → Dump σ → Prop
  | start (writer : Store.Writer) (time : Moment) : Streams job [] [] [] (.start job writer time)
  | step {put : List RawItem} {got : List (Nat × RawItem)} {stopped : List Nat}
      {dump after : Dump σ} {action : Action} {program : Program (Dump σ)} (time : Moment)
      (files : Files) (before : Streams job put got stopped dump)
      (possible : dump.step? job action = some program)
      (ran : (program.run time files).1 = after) :
      Streams job (put ++ dump.puts after) (got ++ dump.takes after action)
        (stopped ++ dump.stops after action) after
  | cancel {put : List RawItem} {got : List (Nat × RawItem)} {stopped : List Nat}
      {dump : Dump σ} (stage : Stage) (before : Streams job put got stopped dump) :
      Streams job put got stopped (dump.cancel stage)

variable {job : Job σ} {assured : Prop} {time : Moment} {dump after : Dump σ}
  {files changed : Files} {action : Action} {put : List RawItem} {got : List (Nat × RawItem)}
  {stopped : List Nat}

/-! ## What a step does -/

theorem puts_of_append {more : List RawItem}
    (items : after.shared.raw.items = dump.shared.raw.items ++ more) : dump.puts after = more :=
  Queue.gained_of_append items

theorem puts_of_suffix {taken : List RawItem}
    (items : dump.shared.raw.items = taken ++ after.shared.raw.items) : dump.puts after = [] :=
  Queue.gained_of_suffix items

theorem takes_of_append {more : List RawItem}
    (items : after.shared.raw.items = dump.shared.raw.items ++ more) :
    dump.takes after action = [] := by
  cases action with
  | worker id side =>
    rw [takes, items, List.length_append, Nat.sub_eq_zero_of_le (Nat.le_add_right _ _)]
    rfl
  | _ => rfl

theorem takes_of_suffix {id : Nat} {side : Side} {taken : List RawItem}
    (items : dump.shared.raw.items = taken ++ after.shared.raw.items) :
    dump.takes after (.worker id side) = taken.map fun item => (id, item) := by
  rw [takes, items, List.length_append, Nat.add_sub_cancel, List.take_left]

theorem fst_of_mem_takes {id : Nat} {side : Side} {receipt : Nat × RawItem}
    (member : receipt ∈ dump.takes after (.worker id side)) : receipt.1 = id := by
  obtain ⟨item, -, rfl⟩ := List.mem_map.mp member
  rfl

/-- The order of items does not change in the queue. -/
def Carries (dump after : Dump σ) (action : Action) : Prop :=
  dump.shared.raw.items ++ dump.puts after =
    (dump.takes after action).map Prod.snd ++ after.shared.raw.items

theorem carries_of_append {more : List RawItem}
    (items : after.shared.raw.items = dump.shared.raw.items ++ more) :
    dump.Carries after action := by
  rw [Carries, puts_of_append items, takes_of_append items, items]
  rfl

theorem carries_of_suffix {id : Nat} {side : Side} {taken : List RawItem}
    (items : dump.shared.raw.items = taken ++ after.shared.raw.items) :
    dump.Carries after (.worker id side) := by
  rw [Carries, puts_of_suffix items, takes_of_suffix items, List.map_map, List.append_nil]
  exact items.trans (congrArg (· ++ _) (List.map_id' taken).symm)

/-- What has passed through the raw queue of a dump. -/
structure Streaming (job : Job σ) (put : List RawItem) (got : List (Nat × RawItem))
    (stopped : List Nat) (dump : Dump σ) : Prop where
  ends : dump.Ends job
  order : put = got.map Prod.snd ++ dump.shared.raw.items
  takers : ∀ receipt ∈ got, receipt.1 < job.settings.workers
  sent : ∃ (batches : List RecordBatch) (marks : Nat),
    put = batches.map .batch ++ List.replicate marks .endOfStream ∧
      (marks ≠ 0 → dump.download.phase = .finished)
  relaying : ∃ batches marks, dump.Relaying batches marks stopped.length
  taken : ∀ id worker, dump.workers[id]? = some worker → worker.IsWell →
    marksTaken id got = worker.sees
  failed : ∀ id ∈ stopped, ∃ worker, dump.workers[id]? = some worker ∧ ¬ worker.IsWell

/-- Nobody but the download puts something into the raw queue. -/
theorem Streaming.append (streaming : dump.Streaming job put got stopped) (ends : after.Ends job)
    (relaying : ∃ batches marks, after.Relaying batches marks stopped.length) {more : List RawItem}
    (items : after.shared.raw.items = dump.shared.raw.items ++ more)
    (workers : after.workers.map Worker.phase = dump.workers.map Worker.phase)
    (sent : ∃ (batches : List RecordBatch) (marks : Nat),
      put ++ more = batches.map .batch ++ List.replicate marks .endOfStream ∧
        (marks ≠ 0 → after.download.phase = .finished)) :
    after.Streaming job (put ++ more) got stopped := by
  have phases (id : Nat) : after.workers[id]?.map Worker.phase =
      dump.workers[id]?.map Worker.phase := by
    rw [← List.getElem?_map, workers, List.getElem?_map]
  refine ⟨ends, ?_, streaming.takers, sent, relaying, fun id worker here well => ?_,
    fun id member => ?_⟩
  · rw [items, ← List.append_assoc, ← streaming.order]
  · have same := phases id
    rw [here] at same
    obtain ⟨before, there, phase⟩ := Option.map_eq_some_iff.mp same.symm
    have sees := streaming.taken id before there fun cause failed =>
      well cause (phase.symm.trans failed)
    simp only [sees, Worker.sees, phase]
  · obtain ⟨worker, here, failed⟩ := streaming.failed id member
    have same := phases id
    rw [here] at same
    obtain ⟨later, there, phase⟩ := Option.map_eq_some_iff.mp same
    exact ⟨later, there, fun well => failed fun cause is => well cause (phase.trans is)⟩

/-- Nobody does anything with the raw queue. -/
theorem Streaming.quiet (streaming : dump.Streaming job put got stopped) (ends : after.Ends job)
    (relaying : ∃ batches marks, after.Relaying batches marks stopped.length)
    (items : after.shared.raw.items = dump.shared.raw.items)
    (download : after.download.phase = dump.download.phase)
    (workers : after.workers.map Worker.phase = dump.workers.map Worker.phase) :
    after.Streaming job put got stopped := by
  rw [← List.append_nil put]
  refine streaming.append ends relaying (items.trans (List.append_nil _).symm) workers ?_
  rw [List.append_nil, download]
  exact streaming.sent

theorem Streaming.cancel (streaming : dump.Streaming job put got stopped) (stage : Stage) :
    (dump.cancel stage).Streaming job put got stopped := by
  obtain ⟨batches, marks, relaying⟩ := streaming.relaying
  refine streaming.quiet (streaming.ends.cancel stage) ⟨batches, marks, relaying.cancel stage⟩ ?_ ?_
    ?_
  · rw [cancel_shared]
  · cases stage <;> rfl
  · exact map_cancel_workers (fun _ => rfl) dump stage

theorem marksTaken_append (id : Nat) (front back : List (Nat × RawItem)) :
    marksTaken id (front ++ back) = marksTaken id front + marksTaken id back :=
  List.countP_append

theorem marksTaken_singleton (id : Nat) (item : RawItem) :
    marksTaken id [(id, item)] = item.isEnd.toNat := by
  rw [marksTaken, List.countP_singleton, beq_self_eq_true, Bool.true_and]
  cases item <;> rfl

/-- A worker takes from the front, and what he puts behind is the marker that he has received. -/
theorem trades {id : Nat} {side : Side} {worker worked : Worker} {raw : Queue RawItem}
    (relays : worker.Relays dump.shared.raw worked raw)
    (finished : worker.forwards ≠ 0 → dump.download.phase = .finished)
    (items : after.shared.raw.items = raw.items) :
    dump.Carries after (.worker id side) ∧
      (dump.puts after = [] ∨
        dump.puts after = [.endOfStream] ∧ dump.download.phase = .finished) ∧
      (worked.IsWell → marksTaken id (dump.takes after (.worker id side)) + worker.sees =
        worked.sees) := by
  cases relays with
  | quiet same well forwards sees =>
    have kept : after.shared.raw.items = dump.shared.raw.items ++ [] :=
      (items.trans same).trans (List.append_nil _).symm
    refine ⟨carries_of_append kept, .inl (puts_of_append kept), fun _ => ?_⟩
    rw [takes_of_append kept, sees]
    exact Nat.zero_add _
  | fails same failed loses =>
    have kept : after.shared.raw.items = dump.shared.raw.items ++ [] :=
      (items.trans same).trans (List.append_nil _).symm
    exact ⟨carries_of_append kept, .inl (puts_of_append kept), fun well => absurd well failed⟩
  | @takesBatch batch first well forwards sees =>
    have taken : dump.shared.raw.items = [.batch batch] ++ after.shared.raw.items := by
      rw [items]
      exact first
    refine ⟨carries_of_suffix taken, .inl (puts_of_suffix taken), fun _ => ?_⟩
    rw [takes_of_suffix taken, sees, List.map_singleton, marksTaken_singleton]
    exact Nat.zero_add _
  | takesMark first well forwards sees =>
    have taken : dump.shared.raw.items = [.endOfStream] ++ after.shared.raw.items := by
      rw [items]
      exact first
    refine ⟨carries_of_suffix taken, .inl (puts_of_suffix taken), fun _ => ?_⟩
    rw [takes_of_suffix taken, sees, List.map_singleton, marksTaken_singleton]
    exact Nat.add_comm _ _
  | passesMark last well forwards sees =>
    have added := items.trans last
    refine ⟨carries_of_append added, .inr ⟨puts_of_append added, finished (by omega)⟩,
      fun _ => ?_⟩
    rw [takes_of_append added, sees]
    exact Nat.zero_add _

/-- A worker takes a step. -/
theorem Streaming.worker (streaming : dump.Streaming job put got stopped) {id : Nat} {side : Side}
    {worker worked : Worker} {shared : Shared} (here : dump.workers[id]? = some worker)
    (step : Worker.Moves job.extraction worker dump.shared worked shared)
    (items : after.shared.raw.items = shared.raw.items)
    (workers : after.workers = dump.workers.set id worked)
    (download : after.download = dump.download) (ends : after.Ends job)
    (relaying : ∃ batches marks,
      after.Relaying batches marks (stopped ++ dump.stops after (.worker id side)).length) :
    after.Streaming job (put ++ dump.puts after) (got ++ dump.takes after (.worker id side))
      (stopped ++ dump.stops after (.worker id side)) := by
  have running := Worker.isWell_of_outcome step.ends.1
  have there : after.workers[id]? = some worked := by
    rw [workers, List.getElem?_set_self', here]
    rfl
  have small : id < job.settings.workers := by
    rw [← streaming.ends.length_eq]
    exact (List.getElem?_eq_some_iff.mp here).1
  obtain ⟨batches, marks, shape, isOver⟩ := streaming.sent
  have finished : worker.forwards ≠ 0 → dump.download.phase = .finished := fun forwards => by
    obtain ⟨_, _, relaying⟩ := streaming.relaying
    have mine : worker.forwards ≤ total (dump.workers.map Worker.forwards) :=
      le_total_of_mem (List.mem_of_getElem? here)
    have single := relaying.single
    by_contra goesOn
    rw [Download.marks_eq_zero goesOn] at single
    omega
  obtain ⟨carries, puts, taken⟩ := trades step.relays finished items
  refine ⟨ends, ?_, ?_, ?_, relaying, fun other later found well => ?_,
    fun other member => ?_⟩
  · rw [List.map_append, List.append_assoc, ← carries, ← List.append_assoc, ← streaming.order]
  · intro receipt member
    rcases List.mem_append.mp member with old | new
    · exact streaming.takers receipt old
    · rw [fst_of_mem_takes new]
      exact small
  · rw [download]
    rcases puts with none | ⟨one, finished⟩
    · rw [none, List.append_nil]
      exact ⟨batches, marks, shape, isOver⟩
    · refine ⟨batches, marks + 1, ?_, fun _ => finished⟩
      rw [one, shape, List.replicate_succ', List.append_assoc]
  · rw [marksTaken_append]
    rw [workers] at found
    rcases getElem?_set_cases found with ⟨rfl, rfl⟩ | ⟨apart, old⟩
    · rw [streaming.taken other worker here running]
      exact (Nat.add_comm _ _).trans (taken well)
    · have nothing : marksTaken other (dump.takes after (.worker id side)) = 0 := by
        refine List.countP_eq_zero.mpr fun receipt member => ?_
        rw [fst_of_mem_takes member, beq_false_of_ne fun same => apart same.symm]
        exact Bool.false_ne_true
      rw [nothing, streaming.taken other later old well]
      rfl
  · rcases List.mem_append.mp member with old | new
    · obtain ⟨before, found, failed⟩ := streaming.failed other old
      have apart : id ≠ other := by
        rintro rfl
        rw [here] at found
        cases found
        exact failed running
      refine ⟨before, ?_, failed⟩
      rw [workers, List.getElem?_set_ne apart]
      exact found
    · simp only [Dump.stops, here, there, Option.any_some] at new
      cases loses : worker.loses worked with
      | false =>
        rw [loses] at new
        cases new
      | true =>
        rw [loses] at new
        obtain rfl := List.mem_singleton.mp new
        refine ⟨worked, there, fun well => ?_⟩
        rw [Worker.loses_eq_false well] at loses
        cases loses

variable [RecordSource σ]

/-- The download sends batches and, at the end, the marker. -/
theorem Streaming.download (streaming : dump.Streaming job put got stopped)
    {download : Download σ} {raw : Queue RawItem}
    (step : Download.Moves job.request dump.download dump.shared.raw download raw)
    (items : after.shared.raw.items = raw.items) (same : after.download = download)
    (workers : after.workers = dump.workers) (ends : after.Ends job)
    (relaying : ∃ batches marks, after.Relaying batches marks stopped.length) :
    after.Streaming job (put ++ dump.puts after) got stopped := by
  obtain ⟨batches, marks, shape, isOver⟩ := streaming.sent
  obtain rfl : marks = 0 := by
    by_contra some
    exact step.phase_ne_finished (isOver some)
  rw [List.replicate_zero, List.append_nil] at shape
  -- whatever the step puts in comes behind batches
  have sends {more : List RawItem} (added : raw.items = dump.shared.raw.items ++ more)
      (sent : ∃ (batches : List RecordBatch) (marks : Nat),
        put ++ more = batches.map .batch ++ List.replicate marks .endOfStream ∧
          (marks ≠ 0 → download.phase = .finished)) :
      after.Streaming job (put ++ dump.puts after) got stopped := by
    have appended := items.trans added
    rw [puts_of_append appended]
    rw [← same] at sent
    exact streaming.append ends relaying appended (congrArg _ workers) sent
  cases step.relays with
  | quiet kept later =>
    refine sends (kept.trans (List.append_nil _).symm)
      ⟨batches, 0, ?_, fun some => absurd rfl some⟩
    rw [shape]
    rfl
  | @sends batch added later =>
    refine sends added ⟨batches ++ [batch], 0, ?_, fun some => absurd rfl some⟩
    rw [shape, List.map_append, List.replicate_zero, List.append_nil]
    rfl
  | ends added finished =>
    refine sends added ⟨batches, 1, ?_, fun _ => finished⟩
    rw [shape]
    rfl

theorem Streaming.move (streaming : dump.Streaming job put got stopped)
    (step : Moves job assured time dump files action after changed) :
    after.Streaming job (put ++ dump.puts after) (got ++ dump.takes after action)
      (stopped ++ dump.stops after action) := by
  have ends := streaming.ends.move step
  have relayed : ∃ batches marks,
      after.Relaying batches marks (stopped ++ dump.stops after action).length := by
    obtain ⟨_, _, relaying⟩ := streaming.relaying
    rw [List.length_append]
    exact relaying.move step
  have others (takes : dump.takes after action = []) (stops : dump.stops after action = [])
      (items : after.shared.raw.items = dump.shared.raw.items)
      (download : after.download.phase = dump.download.phase)
      (workers : after.workers.map Worker.phase = dump.workers.map Worker.phase) :
      after.Streaming job (put ++ dump.puts after) (got ++ dump.takes after action)
        (stopped ++ dump.stops after action) := by
    rw [stops, List.append_nil] at relayed ⊢
    rw [takes, puts_of_append (items.trans (List.append_nil _).symm), List.append_nil,
      List.append_nil]
    exact streaming.quiet ends relayed items download workers
  cases step with
  | download step =>
    simp only [takes, Dump.stops, List.append_nil] at relayed ⊢
    exact streaming.download step (leaveRaw_items _ _ _) rfl rfl ends relayed
  | worker here step =>
    exact streaming.worker here step (leaveRaw_items _ _ _) rfl rfl ends relayed
  | storer step => exact others rfl rfl rfl rfl rfl
  | join step => cases step <;> exact others rfl rfl rfl rfl rfl
  | coordinate step =>
    cases step with
    | started phase => exact others rfl rfl (leaveRaw_items _ _ _) rfl rfl
    | @cancelled _ stage _ phase =>
      refine others rfl rfl ?_ ?_ ?_
      · exact congrArg (fun shared => shared.raw.items) (cancel_shared dump stage)
      · cases stage <;> rfl
      · exact map_cancel_workers (fun _ => rfl) dump stage
    | _ => exact others rfl rfl rfl rfl rfl

/-- What has passed through the raw queue, in every order of steps. -/
theorem Streams.streaming (streams : dump.Streams job put got stopped) :
    dump.Streaming job put got stopped := by
  induction streams with
  | start writer time =>
    refine ⟨ends_start job writer time, rfl, nofun, ⟨[], 0, rfl, fun some => absurd rfl some⟩,
      ⟨[], 0, relaying_start job writer time⟩, fun id worker here well => ?_, nofun⟩
    have unseen : ∀ worker ∈ (Dump.start job writer time).workers, worker.sees = 0 :=
      forall_workers_start job writer time fun _ => rfl
    exact (unseen worker (List.mem_of_getElem? here)).symm
  | @step _ _ _ dump after action program time files before possible ran ih =>
    have step : Moves job False time dump files action after (program.run time files).2 :=
      moves_of_step ih.ends possible (Prod.ext ran rfl) nofun
    exact ih.move step
  | cancel stage before ih => exact ih.cancel stage

omit [RecordSource σ] in
/-- A worker that has ended well has left no batch behind. -/
theorem Relaying.no_batch {batches : List RecordBatch} {marks stops : Nat}
    (relaying : dump.Relaying batches marks stops) {worker : Worker} (member : worker ∈ dump.workers)
    (isOver : worker.phase = .finished) : batches = [] ∧ dump.download.phase = .finished := by
  have sees : worker.sees ≤ total (dump.workers.map Worker.sees) := le_total_of_mem member
  simp only [Worker.sees, isOver] at sees
  exact relaying.behind.resolve_left fun unseen => by omega

omit [RecordSource σ] in
/-- Once download and workers have ended well, every worker has received the marker once, and one is
left. -/
theorem Streaming.settled (streaming : dump.Streaming job put got stopped)
    (some : 0 < job.settings.workers) (download : dump.download.phase = .finished)
    (workers : ∀ worker ∈ dump.workers, worker.phase = .finished) :
    (∀ id < job.settings.workers, marksTaken id got = 1) ∧
      dump.shared.raw.items = [.endOfStream] := by
  have well : ∀ worker ∈ dump.workers, worker.IsWell := fun worker member cause failed => by
    cases (workers worker member).symm.trans failed
  rw [← streaming.ends.length_eq] at some ⊢
  refine ⟨fun id below => ?_, ?_⟩
  · have here := List.getElem?_eq_getElem below
    have member := List.mem_of_getElem? here
    rw [streaming.taken id _ here (well _ member), Worker.sees, workers _ member]
  · obtain ⟨batches, marks, relaying⟩ := streaming.relaying
    obtain ⟨worker, member⟩ := List.exists_mem_of_length_pos some
    obtain rfl := (relaying.no_batch member (workers worker member)).1
    have none : stopped = [] := by
      refine List.eq_nil_iff_forall_not_mem.mpr fun id lost => ?_
      obtain ⟨worker, here, failed⟩ := streaming.failed id lost
      exact failed (well worker (List.mem_of_getElem? here))
    have idle : total (dump.workers.map Worker.forwards) = 0 :=
      total_eq_zero fun worker member => by simp only [Worker.forwards, workers worker member]
    have all := relaying.all
    rw [idle, none, Download.marks, download] at all
    obtain rfl : marks = 1 := all
    exact relaying.items

end Dump

/-! ## Runs of a dump -/

variable [RecordSource σ]

/-- What a run of a dump puts into the raw queue and takes out of it. -/
theorem Job.Reaches.streams {job : Job σ} {assured : Prop} {files₀ : Files} {actions : List Action}
    {log : List (Nat × Record)} {world : World σ}
    (reached : job.Reaches assured files₀ actions log world) :
    ∃ put got stopped, world.dump.Streams job put got stopped := by
  induction reached with
  | opened time started opens => exact ⟨[], [], [], .start _ started⟩
  | @step _ _ world _ _ before step ih =>
    obtain ⟨put, got, stopped, streams⟩ := ih
    cases step with
    | mk time possible steady => exact ⟨_, _, _, .step time world.files streams possible rfl⟩

/-- In whatever order download and workers take their steps, and whenever tokens are set: what was
put into the raw queue is what one worker each has taken out, and what is left, in order.  Batches
come before the marker.  There is one marker at most, in the queue or with a worker that is about to
pass it on, and then the queue is empty; and it is there from the moment the download has sent it,
unless a worker is cancelled who is about to pass it on.  No worker ends well before the download
has, and all batches are taken out.  If all end well, every worker has received the marker once, and
one is left; and this is so when a run ends well.  If the download fails, there is never a marker, and
no worker ends well. -/
theorem stream_relayed :
    (∀ {job : Job σ} {put : List RawItem} {got : List (Nat × RawItem)} {stopped : List Nat}
      {dump : Dump σ}, dump.Streams job put got stopped →
      (put = got.map Prod.snd ++ dump.shared.raw.items ∧
        ∀ receipt ∈ got, receipt.1 < job.settings.workers) ∧
      (∃ (sent : List RecordBatch) (marks : Nat),
        put = sent.map .batch ++ List.replicate marks .endOfStream) ∧
      (∃ (batches : List RecordBatch) (marks : Nat),
        dump.shared.raw.items = batches.map .batch ++ List.replicate marks .endOfStream ∧
        marks + total (dump.workers.map Worker.forwards) ≤ 1 ∧
        (.endOfStream ∈ put → stopped = [] →
          marks + total (dump.workers.map Worker.forwards) = 1) ∧
        ((∃ worker ∈ dump.workers, worker.forwards ≠ 0) → dump.shared.raw.items = [])) ∧
      (∀ worker ∈ dump.workers, worker.phase = .finished →
        dump.download.phase = .finished ∧ ∀ batch, .batch batch ∉ dump.shared.raw.items) ∧
      (0 < job.settings.workers → dump.download.phase = .finished →
        (∀ worker ∈ dump.workers, worker.phase = .finished) →
        (∀ id < job.settings.workers, marksTaken id got = 1) ∧
          dump.shared.raw.items = [.endOfStream]) ∧
      ∀ cause, dump.download.phase = .failed cause →
        .endOfStream ∉ put ∧ ∀ worker ∈ dump.workers, worker.phase ≠ .finished) ∧
    ∀ {job : Job σ} {assured : Prop} {files₀ : Files} {actions : List Action}
      {log : List (Nat × Record)} {world : World σ},
      job.Reaches assured files₀ actions log world → ∃ put got stopped,
        world.dump.Streams job put got stopped ∧
        ∀ {result : RunResult}, 0 < job.settings.workers →
          world.dump.coordinator.phase = .returned (.ok result) →
          (∀ id < job.settings.workers, marksTaken id got = 1) ∧
            world.dump.shared.raw.items = [.endOfStream] := by
  constructor
  · intro job put got stopped dump streams
    have streaming := streams.streaming
    obtain ⟨batches, marks, relaying⟩ := streaming.relaying
    obtain ⟨sent, copies, shape, isOver⟩ := streaming.sent
    have marked (member : .endOfStream ∈ put) : dump.download.phase = .finished := by
      refine isOver fun none => ?_
      rw [shape, none, List.replicate_zero, List.append_nil] at member
      obtain ⟨batch, -, same⟩ := List.mem_map.mp member
      cases same
    refine ⟨⟨streaming.order, streaming.takers⟩, ⟨sent, copies, shape⟩,
      ⟨batches, marks, relaying.items, ?_, fun member none => ?_, ?_⟩, fun worker member isOver => ?_,
      streaming.settled, fun cause failed => ⟨fun member => ?_, fun worker member isOver => ?_⟩⟩
    · exact Nat.le_trans relaying.single dump.download.marks_le
    · have all := relaying.all
      rw [none, Download.marks, marked member] at all
      exact all
    · rintro ⟨worker, member, forwards⟩
      unfold Worker.forwards at forwards
      split at forwards
      · next phase => exact relaying.items_eq_nil member phase
      · exact absurd rfl forwards
    · obtain ⟨none, finished⟩ := relaying.no_batch member isOver
      refine ⟨finished, fun batch inside => ?_⟩
      rw [relaying.items, none] at inside
      cases List.eq_of_mem_replicate inside
    · cases failed.symm.trans (marked member)
    · cases failed.symm.trans (relaying.no_batch member isOver).2
  · intro job assured files₀ actions log world reached
    obtain ⟨put, got, stopped, streams⟩ := reached.streams
    refine ⟨put, got, stopped, streams, fun some returned => ?_⟩
    have knows := reached.knows (by simp only [Coordinator.IsCalm, returned])
    have next := knows.next
    simp only [Dump.IsAtNext, returned] at next
    have done := knows.isDone next
    exact streams.streaming.settled some done.download done.workers

/-- In the small job with two workers each of them has received the marker once. -/
theorem few_stream_relayed : ∃ put got stopped,
    (Job.smallWorld 2 60).dump.Streams (Job.small 2) put got stopped ∧
      put = got.map Prod.snd ++ [.endOfStream] ∧ marksTaken 0 got = 1 ∧ marksTaken 1 got = 1 := by
  have streamed := @stream_relayed Source _
  obtain ⟨actions, log, result, reached, returned⟩ := Job.small_ends
  obtain ⟨put, got, stopped, streams, settled⟩ := streamed.2 reached
  obtain ⟨once, left⟩ := settled (by decide) returned
  obtain ⟨⟨order, -⟩, -⟩ := streamed.1 streams
  rw [left] at order
  exact ⟨put, got, stopped, streams, order, once 0 (by decide), once 1 (by decide)⟩

end TreeExport

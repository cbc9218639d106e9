import TreeExport.Proofs.Dump.EndOfInput
import TreeExport.Proofs.Dump.Judging

/-!
# The books of a run

The bytes that the workers count are those of the payloads in the buffers that they set out to submit
and in those that they hold (`Job.Announces.isWeighed`).  When a run has ended well all buffers have
been submitted, all records are counted once, and the coordinator has gathered from all workers, so
that the books balance whatever the order in which all that was done
(`Job.Announces.books_balance`).
-/

namespace TreeExport

/-! ## The payloads in a buffer -/

/-- The bytes in a buffer without the four in front of every payload that tell its length. -/
def Buffer.payloadBytes (buffer : Buffer) : Nat :=
  buffer.batch.size - 4 * buffer.batch.length

/-- The bytes of payloads in a buffer, if there is one. -/
def FullItem.payloadBytes : FullItem → Nat
  | .buffer full => full.payloadBytes
  | .endOfInput => 0

namespace EntryBatch

variable {capacity maxEntries : Nat} {batch : EntryBatch} {entries : List StoredEntry}

theorem size_push (batch : EntryBatch) (path : String) (payload : Bytes) :
    (batch.push path payload).size = batch.size + (Length.width + payload.length) := by
  simp only [size, push, List.length_append, Length.length_encode]

theorem length_push (batch : EntryBatch) (path : String) (payload : Bytes) :
    (batch.push path payload).length = batch.length + 1 :=
  List.length_append

/-- There is a length in front of every payload. -/
theorem Packs.le_size (packs : Packs capacity maxEntries batch entries) :
    4 * batch.length ≤ batch.size := by
  induction packs with
  | empty => exact Nat.le_refl 0
  | push _ _ _ _ ih =>
    rw [size_push, length_push, Length.width]
    omega

end EntryBatch

namespace Buffer

variable {capacity maxEntries : Nat} {buffer : Buffer} {entries : List StoredEntry}

/-- One payload more in a packed buffer. -/
theorem payloadBytes_push (packs : EntryBatch.Packs capacity maxEntries buffer.batch entries)
    (path : String) (payload : Bytes) :
    payloadBytes { buffer with batch := buffer.batch.push path payload } =
      buffer.payloadBytes + payload.length := by
  have lengths := packs.le_size
  rw [payloadBytes, payloadBytes, EntryBatch.size_push, EntryBatch.length_push, Length.width]
  omega

theorem payloadBytes_of_blank (blank : buffer.IsBlank capacity maxEntries) :
    buffer.payloadBytes = 0 := by
  rw [payloadBytes, blank]
  rfl

end Buffer

/-! ## What a worker sets out to submit -/

namespace Worker

/-- The bytes of payloads in the buffer that a worker fills. -/
def inHand (worker : Worker) : Nat :=
  (worker.current.map Buffer.payloadBytes).getD 0

variable {extraction : Extraction} {worker after : Worker} {shared sharedAfter : Shared}
  {capacity maxEntries : Nat}

theorem begins_of_none (none : after.offering = []) : worker.begins after = [] := by
  rw [begins, none, ite_self]

/-- A worker that goes on with an operation sets out to submit nothing new. -/
theorem begins_of_going {call next : Pool.Call} {pool : Pool} (busy : worker.call? = some call)
    (later : after.call? = some next)
    (kind : call.kind = .acquire ∨ call.kind = .submit ∨ call.kind = .giveBack)
    (step : Pool.Call.Advances shared.pool worker.cancelled call pool (.going next)) :
    worker.begins after = [] := by
  have before := offering_of_call busy
  have now := offering_of_call later
  cases step with
  | submit | countFull | submitStopped | submitReady =>
    rw [begins, before]
    exact if_neg (List.cons_ne_nil _ _)
  | fetchReady | fetchFirst | signalEnd | drainFirst | drained =>
    rcases kind with other | other | other <;> cases other
  | _ => exact begins_of_none now

theorem bytes_counting (extraction : Extraction) (worker : Worker) (record : Record) :
    (worker.counting extraction record).statistics.bytes = worker.statistics.bytes := by
  cases verdict : extraction.judge record <;> simp only [counting, verdict] <;> rfl

/-- The bytes that a worker counts are those of the payload that it puts into its buffer, and it
keeps the buffer until it sets out to submit it. -/
theorem Moves.weighs (step : Moves extraction worker shared after sharedAfter)
    (sound : worker.IsSound capacity maxEntries) (shaped : worker.IsShaped) :
    after.statistics.bytes + worker.inHand = worker.statistics.bytes + after.inHand +
      total ((worker.begins after).map Buffer.payloadBytes) := by
  have same (statistics : after.statistics.bytes = worker.statistics.bytes)
      (inHand : after.inHand = worker.inHand) (nothing : worker.begins after = []) :
      after.statistics.bytes + worker.inHand = worker.statistics.bytes + after.inHand +
        total ((worker.begins after).map Buffer.payloadBytes) := by
    rw [statistics, inHand, nothing]
    rfl
  have submits {buffer : Buffer} (current : worker.current = some buffer)
      (statistics : after.statistics.bytes = worker.statistics.bytes) (gone : after.current = none)
      (idle : worker.call? = none) (offers : after.offering = [buffer]) :
      after.statistics.bytes + worker.inHand = worker.statistics.bytes + after.inHand +
        total ((worker.begins after).map Buffer.payloadBytes) := by
    rw [begins, if_pos (offering_of_idle idle), offers, statistics, inHand, inHand, current, gone]
    simp only [Option.map_some, Option.getD_some, Option.map_none, Option.getD_none,
      List.map_cons, List.map_nil, total_cons, total_nil, Nat.add_zero]
  cases step with
  | passedOver | malformed | unencodable | encoded =>
    exact same (bytes_counting ..) rfl (begins_of_none rfl)
  | placed live phase current =>
    obtain ⟨entries, packs⟩ := sound.current _ current
    rw [begins_of_none (offering_of_idle rfl)]
    simp only [inHand, current, Option.map_some, Option.getD_some, Buffer.payloadBytes_push packs,
      Statistics.addAccepted, List.map_nil, total_nil]
    omega
  | placeFull phase current =>
    exact submits current rfl rfl (by simp only [call?, phase]) rfl
  | @flushEmpty buffer phase current empty =>
    obtain ⟨entries, packs⟩ := sound.current _ current
    have nothing : buffer.payloadBytes = 0 :=
      Buffer.payloadBytes_of_blank (packs.eq_empty (packs.isEmpty_iff.mp empty))
    refine same rfl ?_ (begins_of_none rfl)
    simp only [inHand, current, Option.map_some, Option.getD_some, nothing, Option.map_none,
      Option.getD_none]
  | flushLast phase current =>
    exact submits current rfl rfl (by simp only [call?, phase]) rfl
  | @acquired path payload rest call pool buffer phase kind advance =>
    have nothing : buffer.payloadBytes = 0 := by
      have carried := sound.call call (by simp only [call?, phase])
      cases advance with
      | acquired => exact Buffer.payloadBytes_of_blank carried
    simp only [IsShaped, phase] at shaped
    refine same rfl ?_ (begins_of_none rfl)
    simp only [inHand, shaped.2, Option.map_some, Option.getD_some, nothing, Option.map_none,
      Option.getD_none]
  | acquiring phase kind advance =>
    exact same rfl rfl (begins_of_going (by simp only [call?, phase]) rfl (.inl kind) advance)
  | submitting phase kind advance =>
    exact same rfl rfl (begins_of_going (by simp only [call?, phase]) rfl (.inr (.inl kind)) advance)
  | givingUp phase kind advance =>
    exact same rfl rfl (begins_of_going (by simp only [call?, phase]) rfl (.inr kind) advance)
  | _ => exact same rfl rfl (begins_of_none rfl)

end Worker

variable {σ : Type} {job : Job σ} {assured : Prop} {files₀ : Files} {offered : List Buffer}
  {put : List FullItem} {states : List RunState} {world : World σ}

namespace Dump

variable {dump after : Dump σ} {time : Moment} {files changed : Files} {action : Action}

/-- What the workers have counted are the bytes in the buffers that they have set out to submit and in
those that they fill. -/
def IsWeighed (offered : List Buffer) (dump : Dump σ) : Prop :=
  total (dump.workers.map (·.statistics.bytes)) =
    total (offered.map Buffer.payloadBytes) + total (dump.workers.map Worker.inHand)

theorem IsWeighed.quiet (weighed : dump.IsWeighed offered)
    (workers : ∀ count : Worker → Nat,
      (∀ worker : Worker, count { worker with cancelled := true } = count worker) →
        after.workers.map count = dump.workers.map count)
    (begins : dump.begins after action = []) :
    after.IsWeighed (offered ++ dump.begins after action) := by
  rw [begins, List.append_nil, IsWeighed, workers _ fun _ => rfl,
    workers Worker.inHand fun _ => rfl]
  exact weighed

theorem IsWeighed.worker {id : Nat} {side : Side} {worker worked : Worker} {shared : Shared}
    {capacity maxEntries : Nat} (weighed : dump.IsWeighed offered)
    (here : dump.workers[id]? = some worker)
    (step : Worker.Moves job.extraction worker dump.shared worked shared)
    (sound : worker.IsSound capacity maxEntries) (shaped : worker.IsShaped)
    (workers : after.workers = dump.workers.set id worked) :
    after.IsWeighed (offered ++ dump.begins after (.worker id side)) := by
  have within := (List.getElem?_eq_some_iff.mp here).1
  have begins : dump.begins after (.worker id side) = worker.begins worked := by
    simp only [Dump.begins, workers, here, List.getElem?_set_self within]
  have bytes := total_map_set (f := fun worker => worker.statistics.bytes) worked here
  have inHand := total_map_set (f := Worker.inHand) worked here
  have moved := step.weighs sound shaped
  unfold IsWeighed at weighed ⊢
  rw [begins, workers, List.map_append, total_append]
  omega

variable [RecordSource σ]

theorem IsWeighed.move {stored : List (List StoredEntry)} (weighed : dump.IsWeighed offered)
    (ends : dump.Ends job) (handing : dump.Handing job assured put stored files)
    (step : Moves job assured time dump files action after changed) :
    after.IsWeighed (offered ++ dump.begins after action) := by
  cases step with
  | download step => exact weighed.quiet (fun _ _ => rfl) rfl
  | worker here step =>
    have member := List.mem_of_getElem? here
    obtain ⟨received, taken, sent, accounts⟩ := handing.workers _ member
    exact weighed.worker here step accounts.sound (ends.shaped _ member) rfl
  | storer step => exact weighed.quiet (fun _ _ => rfl) rfl
  | join step => cases step <;> exact weighed.quiet (fun _ _ => rfl) rfl
  | coordinate step =>
    cases step with
    | @cancelled _ stage _ _ =>
      exact weighed.quiet (fun count same => map_cancel_workers same dump stage) rfl
    | _ => exact weighed.quiet (fun _ _ => rfl) rfl

/-- What a run that ends well yields are the statistics that the coordinator has gathered. -/
theorem Moves.statistics_of_returned {result : RunResult}
    (step : Moves job assured time dump files action after changed)
    (before : ∀ result, dump.coordinator.phase = .returned (.ok result) →
      result.statistics = dump.coordinator.statistics)
    (returned : after.coordinator.phase = .returned (.ok result)) :
    result.statistics = after.coordinator.statistics := by
  cases step with
  | join step =>
    cases step with
    | download phase | worker phase => cases returned.symm.trans phase
    | _ => cases returned
  | coordinate step =>
    cases step with
    | closed =>
      cases returned
      rfl
    | _ => cases returned
  | _ => exact before result returned

end Dump

variable [RecordSource σ]

/-- While the coordinator is calm, the bytes that the workers have counted are in their buffers. -/
theorem Job.Announces.isWeighed (announces : job.Announces assured files₀ offered put states world)
    (sized : job.settings.IsSized) (calm : world.dump.coordinator.IsCalm) :
    world.dump.IsWeighed offered := by
  induction announces using Job.Announces.rec_moves with
  | @opened writer files time started opens =>
    have none := fun (count : Worker → Nat) =>
      @Dump.total_workers_start σ count job writer started
    rw [Dump.IsWeighed, none _ fun _ => rfl, none Worker.inHand fun _ => rfl]
    rfl
  | move before _ step ih =>
    have calmBefore := step.isCalm_before calm
    obtain ⟨actions, log, reached⟩ := before.reaches
    obtain ⟨stored, handing⟩ :=
      before.handing sized (step.goesOn_of_calm calmBefore (reached.knows calmBefore))
    exact (ih calmBefore).move reached.ends handing step

theorem Job.Reaches.statistics_of_returned {actions : List Action} {log : List (Nat × Record)}
    {result : RunResult} (reached : job.Reaches assured files₀ actions log world)
    (returned : world.dump.coordinator.phase = .returned (.ok result)) :
    result.statistics = world.dump.coordinator.statistics := by
  induction reached using Job.Reaches.rec_moves generalizing result with
  | opened => cases returned
  | move _ _ step ih => exact step.statistics_of_returned (fun _ => ih) returned

/-- A run that has ended well has settled all records. -/
theorem Job.Reaches.settles_of_returned {actions : List Action} {log : List (Nat × Record)}
    {batches : List RecordBatch} {result : RunResult}
    (reached : job.Reaches assured files₀ actions log world) (sized : job.settings.IsSized)
    (finite : RecordSource.Yields job.request job.source batches none)
    (returned : world.dump.coordinator.phase = .returned (.ok result)) :
    ∃ submitted, job.Settles (batches.flatMap RecordBatch.records) log submitted := by
  induction reached using Job.Reaches.rec_moves with
  | opened => cases returned
  | @move _ log world _ after time before _ step ih =>
    rcases step.of_returned_ok returned with earlier | ⟨phase, rfl, -⟩
    · have calm : world.dump.coordinator.IsCalm := by simp only [Coordinator.IsCalm, earlier]
      exact absurd earlier (step.goesOn_of_calm calm (before.knows calm) _)
    · have calm : world.dump.coordinator.IsCalm := by simp only [Coordinator.IsCalm, phase]
      have knows := before.knows calm
      have next := knows.next
      simp only [Dump.IsAtNext, phase] at next
      obtain ⟨received, submitted, lists, flows⟩ :=
        before.flows sized finite fun result other => by cases phase.symm.trans other
      obtain ⟨_, _, _, relaying⟩ := before.relaying
      obtain ⟨_, _, stocking, -⟩ := before.stocking sized.workers
      obtain ⟨-, settles, -⟩ := flows.settles before.ends (knows.isDone next)
        (before.isClear calm) sized.workers relaying stocking
      have quiet : log ++ world.dump.taking .coordinate = log := List.append_nil log
      rw [quiet]
      exact ⟨submitted, settles⟩

/-! ## The books of a run that has ended well -/

/-- The statistics are those of all workers, merged in some order, where the entries of histograms
are visited in some order. -/
def Dump.MayGather (dump : Dump σ) (gathered : Statistics) : Prop :=
  ∃ order : List Worker, order.Perm dump.workers ∧
    Statistics.Gathers (order.map Worker.statistics) gathered

omit [RecordSource σ] in
theorem Dump.MayGather.sum {dump : Dump σ} {gathered : Statistics} {count : Statistics → Nat}
    (gathers : dump.MayGather gathered) (none : count {} = 0)
    (adds : ∀ s t order, count (Statistics.mergeInOrder s t order) = count s + count t) :
    count gathered = total (dump.workers.map fun worker => count worker.statistics) := by
  obtain ⟨order, perm, gathers⟩ := gathers
  rw [gathers.sum none adds, List.map_map]
  exact total_perm (perm.map _)

omit [RecordSource σ] in
/-- Merging the statistics of workers that have ended counts all that they have taken up. -/
theorem Dump.IsTallied.of_mayGather {dump : Dump σ} {log : List (Nat × Record)}
    {gathered : Statistics} (tallied : dump.IsTallied job.extraction log) (ends : dump.Ends job)
    (isOver : ∀ worker ∈ dump.workers, worker.phase = .finished)
    (takers : IsDealtTo job.settings.workers log) (gathers : dump.MayGather gathered) :
    job.extraction.Tallies (log.map Prod.snd) gathered := by
  obtain ⟨order, perm, gathers⟩ := gathers
  have each : List.Forall₂ job.extraction.Tallies (order.map fun worker => shareOf worker.id log)
      (order.map Worker.statistics) := by
    rw [List.forall₂_map_left_iff, List.forall₂_map_right_iff, List.forall₂_same]
    intro worker member
    have among := perm.mem_iff.mp member
    have finished := isOver worker among
    obtain ⟨id, here⟩ := List.mem_iff_getElem?.mp among
    have counted := tallied id worker here fun cause failed => by cases finished.symm.trans failed
    rw [ends.id_eq here]
    simpa only [Worker.promised, Worker.pending?, finished] using counted
  have shares : (order.map fun worker => shareOf worker.id log).flatten.Perm (log.map Prod.snd) := by
    refine .trans ?_ takers.shares_perm
    have ids : dump.workers.map Worker.id = List.range job.settings.workers := ends.ids
    rw [← ids, List.flatMap_map, List.flatMap_def]
    exact (perm.map _).flatten
  exact (Extraction.tallies_of_gathers each gathers).perm shares.symm

/-- A run that has ended well has come to the end of its source, and whatever way its workers'
statistics are merged, they count all that the source has handed out. -/
theorem Job.Reaches.tallies_of_returned {actions : List Action} {log : List (Nat × Record)}
    {result : RunResult} (reached : job.Reaches assured files₀ actions log world)
    (sized : job.settings.IsSized)
    (returned : world.dump.coordinator.phase = .returned (.ok result)) :
    world.dump.IsDone ∧ world.dump.MayGather result.statistics ∧
      ∃ batches, RecordSource.Yields job.request job.source batches none ∧
        ∀ gathered, world.dump.MayGather gathered →
          job.extraction.Tallies (batches.flatMap RecordBatch.records) gathered := by
  have knows := reached.knows (by simp only [Coordinator.IsCalm, returned])
  have next := knows.next
  simp only [Dump.IsAtNext, returned] at next
  have done := knows.isDone next
  obtain ⟨order, joined, perm⟩ := knows.exists_perm reached.ends.nodup next
  obtain ⟨batches, finite⟩ := reached.exists_yields done.download
  obtain ⟨submitted, settles⟩ := reached.settles_of_returned sized finite returned
  refine ⟨done, ⟨order, perm, ?_⟩, batches, finite, fun gathered gathers => ?_⟩
  · rw [reached.statistics_of_returned returned]
    exact joined.gathered
  · exact (reached.isTallied.of_mayGather reached.ends done.workers settles.takers gathers).perm
      settles.log_perm.symm

omit [RecordSource σ] in
/-- Workers that have ended hold no buffer. -/
theorem Dump.IsDone.inHand {dump : Dump σ} (done : dump.IsDone) (ends : dump.Ends job) :
    total (dump.workers.map Worker.inHand) = 0 := by
  refine total_eq_zero fun worker member => ?_
  have shaped := ends.shaped worker member
  simp only [Worker.IsShaped, done.workers worker member] at shaped
  rw [Worker.inHand, shaped]
  rfl

/-- The workers of a run that has ended well have counted the bytes in the buffers that were put into
the queue. -/
theorem Job.Announces.bytes_of_returned {result : RunResult}
    (announces : job.Announces assured files₀ offered put states world)
    (sized : job.settings.IsSized)
    (returned : world.dump.coordinator.phase = .returned (.ok result)) :
    total (world.dump.workers.map (·.statistics.bytes)) = total (put.map FullItem.payloadBytes) := by
  obtain ⟨actions, log, reached⟩ := announces.reaches
  obtain ⟨done, -⟩ := reached.tallies_of_returned sized returned
  obtain ⟨sent, all⟩ := (announces.announcing sized.workers).sent
  have perm := announces.delivering.perm all done.workers
  have weighed := announces.isWeighed sized (by simp only [Coordinator.IsCalm, returned])
  have marks : total ((List.replicate world.dump.endsOfInput FullItem.endOfInput).map
      FullItem.payloadBytes) = 0 :=
    total_eq_zero fun item member => by rw [List.eq_of_mem_replicate member]; rfl
  have buffers : total ((sent.map FullItem.buffer).map FullItem.payloadBytes) =
      total (sent.map Buffer.payloadBytes) := by
    rw [List.map_map]
    rfl
  unfold Dump.IsWeighed at weighed
  rw [weighed, done.inHand reached.ends, Nat.add_zero, total_perm (perm.map _), all,
    List.map_append, total_append, buffers, marks, Nat.add_zero]

/-- However the records of a run that ends well were dealt out, and in whatever order the statistics
of its workers are merged: every record is counted once, as what becomes of it; the bytes are those
of the submitted buffers without the lengths in them; the counts of regions add up to the number of
nodes unless there were too many regions; and the workers share the same counts.  Any other run over
the same records comes to the same counters. -/
theorem Job.Announces.books_balance {result : RunResult}
    (announces : job.Announces assured files₀ offered put states world)
    (stands : job.settings.Stands)
    (returned : world.dump.coordinator.phase = .returned (.ok result)) :
    world.dump.MayGather result.statistics ∧
      ∃ batches, RecordSource.Yields job.request job.source batches none ∧
        ∀ gathered, world.dump.MayGather gathered →
          gathered.processed = gathered.split + gathered.deleted + gathered.hidden +
            gathered.filtered + gathered.accepted ∧
          job.extraction.Tallies (batches.flatMap RecordBatch.records) gathered ∧
          gathered.bytes = total (put.map FullItem.payloadBytes) ∧
          (∀ kind, total ((gathered.regions kind).counts.map Prod.snd) ≤ gathered.rejections kind ∧
            (total ((gathered.regions kind).counts.map Prod.snd) = gathered.rejections kind ↔
              (gathered.regions kind).overflowed = false)) ∧
          world.dump.shared.live = ⟨gathered.processed, gathered.accepted, gathered.rejected⟩ ∧
          ∀ (other : Job σ) (assured' : Prop) (files' : Files) (actions : List Action)
            (log : List (Nat × Record)) (world' : World σ) (result' : RunResult),
            other.Reaches assured' files' actions log world' → other.settings.Stands →
            world'.dump.coordinator.phase = .returned (.ok result') →
            other.source = job.source → other.request = job.request →
            other.extraction = job.extraction →
              result'.statistics.metrics = gathered.metrics := by
  have sized := stands.isSized
  obtain ⟨actions, log, reached⟩ := announces.reaches
  obtain ⟨done, gathers, batches, finite, tallies⟩ := reached.tallies_of_returned sized returned
  refine ⟨gathers, batches, finite, fun gathered gathers => ?_⟩
  have counted := tallies gathered gathers
  refine ⟨counted.balance, counted, ?_, counted.total_regions, ?_, ?_⟩
  · rw [← announces.bytes_of_returned sized returned]
    exact gathers.sum rfl fun _ _ _ => rfl
  · have isLive := reached.isLive
    have processed : gathered.processed = world.dump.shared.live.processed :=
      (gathers.sum rfl fun _ _ _ => rfl).trans isLive.processed.symm
    have accepted : gathered.accepted = world.dump.shared.live.accepted :=
      (gathers.sum rfl fun _ _ _ => rfl).trans isLive.accepted.symm
    have rejected : gathered.rejected = world.dump.shared.live.rejected := by
      refine (gathers.sum rfl fun s t order => ?_).trans isLive.rejected.symm
      simp only [Statistics.rejected, Statistics.mergeInOrder, Statistics.merge]
      omega
    rw [processed, accepted, rejected]
  · intro other assured' files' actions' log' world' result' reached' stands' returned' source
      request extraction
    obtain ⟨-, gathers', batches', finite', tallies'⟩ :=
      reached'.tallies_of_returned stands'.isSized returned'
    rw [source, request] at finite'
    obtain ⟨rfl, -⟩ := finite.unique finite'
    have again := tallies' _ gathers'
    rw [extraction] at again
    exact counted.metrics_eq again

/-- The books of the small job balance. -/
theorem Job.small_books_balance : (Job.small 2).settings.Stands ∧
    ∃ offered put states world result, (Job.small 2).Announces True {} offered put states world ∧
      world.dump.coordinator.phase = .returned (.ok result) ∧
      result.statistics.bytes = total (put.map FullItem.payloadBytes) ∧
      world.dump.shared.live.processed = result.statistics.split + result.statistics.deleted +
        result.statistics.hidden + result.statistics.filtered + result.statistics.accepted := by
  obtain ⟨actions, log, result, reached, returned⟩ := Job.small_ends
  obtain ⟨offered, put, states, announces⟩ := reached.announces
  obtain ⟨gathers, batches, -, books⟩ := announces.books_balance Job.small_stands returned
  obtain ⟨balance, -, bytes, -, live, -⟩ := books _ gathers
  exact ⟨Job.small_stands, offered, put, states, _, result, announces, returned, bytes,
    (congrArg LiveCounters.processed live).trans balance⟩

end TreeExport

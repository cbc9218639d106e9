import TreeExport.Proofs.Dump.Journals
import TreeExport.Proofs.Dump.Turns
import TreeExport.Proofs.Entry.Payload
import TreeExport.Proofs.Pool.Users

/-!
# Keys and payloads

A key names the path that is also written in the payload it leads to, and sort-and-store takes the one
from the key without looking at the other.  It may: whatever the settings of a job and whatever its
stages do, every key of every buffer leads to a payload that is read as the path of the key
(`Job.Reaches.isLabelled`).  A step only has to say what it does to one buffer, so the invariant goes
through the operations on the pool for any statement about batches that clearing keeps
(`Pool.Call.Advances.keeps`).
-/

namespace TreeExport

/-! ## Batches -/

namespace EntryBatch

/-- Every key leads to a payload that is read as the path of the key. -/
def IsLabelled (batch : EntryBatch) : Prop :=
  ∀ key ∈ batch.keys, ∃ payload json, batch.payloadAt key.offset = .ok payload ∧
    Entry.decode payload = .ok (key.path, json)

variable {batch : EntryBatch}

theorem isLabelled_of_keys (none : batch.keys = []) : batch.IsLabelled := by
  intro key member
  rw [none] at member
  cases member

theorem IsLabelled.push {path : String} {payload json : Bytes} (labelled : batch.IsLabelled)
    (small : payload.length < Length.limit) (read : Entry.decode payload = .ok (path, json)) :
    (batch.push path payload).IsLabelled := by
  intro key member
  rw [keys_push] at member
  rcases List.mem_append.mp member with early | last
  · rcases labelled key early with ⟨other, rest, there, path_eq⟩
    exact ⟨other, rest, payloadAt_push_of_ok path payload there, path_eq⟩
  · rw [List.mem_singleton.mp last]
    exact ⟨payload, json, payloadAt_push_self path small, read⟩

theorem IsLabelled.sort (labelled : batch.IsLabelled) : batch.sort.IsLabelled := by
  intro key member
  exact labelled key (mem_stableSort.mp member)

/-- The entry that a labelled key leads to has the path of the key and all that its payload says. -/
theorem storedEntry_of_decode {key : SortKey} {payload json : Bytes}
    (there : batch.payloadAt key.offset = .ok payload)
    (read : Entry.decode payload = .ok (key.path, json)) :
    batch.storedEntry key = .ok ⟨key.path, json⟩ ∧
      payload = StoredEntry.payload ⟨key.path, json⟩ := by
  refine ⟨?_, (Entry.eq_of_decode read).1⟩
  unfold storedEntry
  rw [there]
  simp only [mapError_ok, bind, Except.bind, read, pure, Except.pure]

/-- What is stored of a labelled batch is what its payloads say, key by key. -/
theorem IsLabelled.storedEntries (labelled : batch.IsLabelled) :
    ∃ entries, batch.storedEntries = .ok entries ∧
      List.Forall₂ (fun key (entry : StoredEntry) => entry.path = key.path ∧
        batch.payloadAt key.offset = .ok entry.payload) batch.keys entries := by
  have paired : ∀ keys : List SortKey, (∀ key ∈ keys, key ∈ batch.keys) →
      ∃ entries, List.Forall₂ (fun key (entry : StoredEntry) => batch.storedEntry key = .ok entry ∧
        entry.path = key.path ∧ batch.payloadAt key.offset = .ok entry.payload) keys entries := by
    intro keys listed
    induction keys with
    | nil => exact ⟨[], .nil⟩
    | cons key rest ih =>
      rcases labelled key (listed key List.mem_cons_self) with ⟨payload, json, there, read⟩
      rcases ih fun other member => listed other (List.mem_cons_of_mem _ member) with
        ⟨entries, others⟩
      rcases storedEntry_of_decode there read with ⟨stored, rfl⟩
      exact ⟨⟨key.path, json⟩ :: entries, .cons ⟨stored, rfl, there⟩ others⟩
  rcases paired batch.keys fun _ member => member with ⟨entries, all⟩
  exact ⟨entries, mapM_of_forall₂ (all.imp fun _ _ it => it.1), all.imp fun _ _ it => it.2⟩

end EntryBatch

/-! ## Buffers of the pool -/

namespace Pool

/-- Something holds of the batches of all buffers that are in a queue. -/
structure Holds (kept : EntryBatch → Prop) (pool : Pool) : Prop where
  empties : ∀ buffer ∈ pool.empties.items, kept buffer.batch
  fulls : ∀ buffer, .buffer buffer ∈ pool.fulls.items → kept buffer.batch

/-- The buffer that an operation goes on with or that it answers. -/
def Progress.buffers : Progress → List Buffer
  | .going call => call.buffer?.toList
  | .answered (.ok answer) => answer.buffers
  | .answered (.error _) => []

variable {kept : EntryBatch → Prop} {pool after : Pool} {cancelled : Bool} {call : Call}
  {progress : Progress}

/-- What holds of all batches in the queues and of the one at hand, and of what is cleared, still does
after a step of any operation. -/
theorem Call.Advances.keeps (step : Advances pool cancelled call after progress)
    (clears : ∀ batch, kept batch → kept batch.clear) (holds : pool.Holds kept)
    (hand : ∀ buffer, call.buffer? = some buffer → kept buffer.batch) :
    after.Holds kept ∧ ∀ buffer ∈ progress.buffers, kept buffer.batch := by
  have one (buffer : Buffer) (holds : kept buffer.batch) : ∀ other ∈ [buffer], kept other.batch :=
    List.forall_mem_singleton.mpr holds
  have nothing : ∀ buffer ∈ ([] : List Buffer), kept buffer.batch := nofun
  -- the queue of full buffers, if its first item or one behind its last is another
  have shorter {item : FullItem} {rest : List FullItem} (first : pool.fulls.items = item :: rest)
      (buffer : Buffer) (member : .buffer buffer ∈ rest) : kept buffer.batch := by
    refine holds.fulls buffer ?_
    rw [first]
    exact List.mem_cons_of_mem _ member
  have longer {item : FullItem} (last : ∀ buffer ∈ item.buffers, kept buffer.batch) (buffer : Buffer)
      (member : .buffer buffer ∈ pool.fulls.items ++ [item]) : kept buffer.batch := by
    rcases List.mem_append.mp member with before | here
    · exact holds.fulls buffer before
    · rw [← List.mem_singleton.mp here] at last
      exact last buffer List.mem_cons_self
  cases step with
  | @acquireFirst buffer _ first =>
    have all := List.forall_mem_cons.mp (first ▸ holds.empties)
    exact ⟨⟨all.2, holds.fulls⟩, one buffer all.1⟩
  | @fetchFirst buffer _ first =>
    refine ⟨⟨holds.empties, shorter first⟩, one buffer (holds.fulls buffer ?_)⟩
    rw [first]
    exact List.mem_cons_self
  | fetchEnd first => exact ⟨⟨holds.empties, shorter first⟩, nothing⟩
  | drainFirst first =>
    have all := List.forall_mem_cons.mp (first ▸ holds.empties)
    exact ⟨⟨all.2, holds.fulls⟩, nothing⟩
  | submitted buffer room =>
    exact ⟨⟨holds.empties, longer (one buffer (hand buffer rfl))⟩, nothing⟩
  | placeEnd room => exact ⟨⟨holds.empties, longer nothing⟩, nothing⟩
  | givenBack buffer room =>
    refine ⟨⟨fun other member => ?_, holds.fulls⟩, nothing⟩
    rcases List.mem_append.mp member with before | last
    · exact holds.empties other before
    · exact one buffer (hand buffer rfl) other last
  | giveBack buffer =>
    exact ⟨⟨holds.empties, holds.fulls⟩,
      one { buffer with batch := buffer.batch.clear } (clears _ (hand buffer rfl))⟩
  | acquired buffer | submit buffer | countFull buffer | submitReady buffer | fetched buffer
  | giveBackReady buffer =>
    exact ⟨⟨holds.empties, holds.fulls⟩, one buffer (hand buffer rfl)⟩
  | _ => exact ⟨⟨holds.empties, holds.fulls⟩, nothing⟩

/-- The buffers of a new pool are empty. -/
theorem holds_create (size capacity maxEntries : Nat)
    (empty : kept (.empty capacity maxEntries)) :
    (create size capacity maxEntries).Holds kept := by
  refine ⟨fun buffer member => ?_, nofun⟩
  rcases List.mem_map.mp member with ⟨number, -, rfl⟩
  exact empty

end Pool

/-! ## Workers -/

namespace Worker

/-- The buffer that a worker fills and the one that it hands on are labelled, and so will be what it is
about to add. -/
structure IsLabelled (worker : Worker) : Prop where
  current : ∀ buffer ∈ worker.current, buffer.batch.IsLabelled
  call : ∀ call ∈ worker.call?, ∀ buffer ∈ call.buffer?, buffer.batch.IsLabelled
  pending : ∀ path payload, worker.pending? = some (path, payload) →
    ∃ json, Entry.decode payload = .ok (path, json)

variable {extraction : Extraction} {worker after : Worker} {shared sharedAfter : Shared}

theorem IsLabelled.cancel (labelled : worker.IsLabelled) :
    IsLabelled { worker with cancelled := true } :=
  ⟨labelled.current, labelled.call, labelled.pending⟩

/-- A worker that is not at an operation on the pool. -/
theorem isLabelled_of_idle (current : ∀ buffer ∈ after.current, buffer.batch.IsLabelled)
    (idle : after.call? = none)
    (pending : ∀ path payload, after.pending? = some (path, payload) →
      ∃ json, Entry.decode payload = .ok (path, json)) : after.IsLabelled := by
  refine ⟨current, fun call busy => ?_, pending⟩
  rw [idle] at busy
  cases busy

/-- A worker that is neither at an operation on the pool nor about to add a payload. -/
theorem IsLabelled.rests (labelled : worker.IsLabelled) (current : after.current = worker.current)
    (idle : after.call? = none) (nothing : after.pending? = none) : after.IsLabelled := by
  refine isLabelled_of_idle ?_ idle fun path payload waits => ?_
  · rw [current]
    exact labelled.current
  · rw [nothing] at waits
    cases waits

/-- A worker that goes on with an operation on the pool. -/
theorem IsLabelled.hands (labelled : worker.IsLabelled) {call : Pool.Call}
    (current : ∀ buffer ∈ after.current, buffer ∈ worker.current) (busy : after.call? = some call)
    (hand : ∀ buffer ∈ call.buffer?.toList, buffer.batch.IsLabelled)
    (pending : after.pending? = worker.pending?) : after.IsLabelled := by
  refine ⟨fun buffer here => labelled.current buffer (current buffer here), ?_, ?_⟩
  · rw [busy]
    intro other same buffer named
    cases same
    exact hand buffer (Option.mem_toList.mpr named)
  · rw [pending]
    exact labelled.pending

/-- What a worker does with the pool. -/
theorem IsLabelled.advance (labelled : worker.IsLabelled) {call : Pool.Call} {pool : Pool}
    {progress : Pool.Progress} (pools : shared.pool.Holds EntryBatch.IsLabelled)
    (busy : worker.call? = some call)
    (step : Pool.Call.Advances shared.pool worker.cancelled call pool progress) :
    pool.Holds EntryBatch.IsLabelled ∧
      ∀ buffer ∈ progress.buffers, buffer.batch.IsLabelled :=
  step.keeps (fun _ _ => EntryBatch.isLabelled_of_keys rfl) pools (labelled.call call busy)

/-- Whatever a worker does, all buffers stay labelled. -/
theorem Moves.isLabelled (step : Moves extraction worker shared after sharedAfter)
    (labelled : worker.IsLabelled) (pools : shared.pool.Holds EntryBatch.IsLabelled) :
    after.IsLabelled ∧ sharedAfter.pool.Holds EntryBatch.IsLabelled := by
  cases step with
  | encoded live phase verdict bytes =>
    refine ⟨isLabelled_of_idle labelled.current rfl fun path payload waits => ?_, pools⟩
    cases waits
    rcases Entry.decode_of_encode bytes with ⟨text, -, read⟩
    exact ⟨_, read⟩
  | placeFirst phase nothing =>
    refine ⟨labelled.hands (fun _ here => here) rfl (List.forall_mem_nil _) ?_, pools⟩
    simp only [pending?, goTo, phase]
  | @placed path payload _ _ live phase current space small =>
    refine ⟨isLabelled_of_idle (fun buffer here => ?_) rfl fun _ _ waits => ?_, pools⟩
    · cases here
      rcases labelled.pending path payload (by simp only [pending?, phase]) with ⟨json, read⟩
      exact (labelled.current _ current).push small read
    · cases waits
  | placeFull phase current noSpace nonempty =>
    refine ⟨labelled.hands (fun _ here => by cases here) rfl
      (List.forall_mem_singleton.mpr (labelled.current _ current)) ?_, pools⟩
    simp only [pending?, phase]
  | flushEmpty phase current empty | flushLast phase current nonempty =>
    refine ⟨labelled.hands (fun _ here => by cases here) rfl
      (List.forall_mem_singleton.mpr (labelled.current _ current)) ?_, pools⟩
    simp only [pending?, phase]
  | acquiring phase kind advance | submitting phase kind advance | givingUp phase kind advance =>
    rcases labelled.advance pools (by simp only [call?, phase]) advance with ⟨later, hand⟩
    refine ⟨labelled.hands (fun _ here => here) rfl hand ?_, later⟩
    simp only [pending?, goTo, phase]
  | @acquired path payload _ _ _ _ phase kind advance =>
    rcases labelled.advance pools (by simp only [call?, phase]) advance with ⟨later, hand⟩
    refine ⟨isLabelled_of_idle (fun buffer here => ?_) rfl fun _ _ waits => ?_, later⟩
    · cases here
      exact hand _ List.mem_cons_self
    · cases waits
      exact labelled.pending path payload (by simp only [pending?, phase])
  | @submitted path payload _ _ _ _ phase kind advance =>
    rcases labelled.advance pools (by simp only [call?, phase]) advance with ⟨later, -⟩
    refine ⟨isLabelled_of_idle labelled.current rfl fun _ _ waits => ?_, later⟩
    cases waits
    exact labelled.pending path payload (by simp only [pending?, phase])
  | acquireFailed phase kind advance | submitFailed phase kind advance
  | gaveUp phase kind advance | giveUpFailed phase kind advance =>
    rcases labelled.advance pools (by simp only [call?, phase]) advance with ⟨later, -⟩
    exact ⟨labelled.rests rfl rfl rfl, later⟩
  | _ => exact ⟨labelled.rests rfl rfl rfl, pools⟩

end Worker

/-! ## Sort-and-store -/

namespace Storer

/-- The buffer that sort-and-store has is labelled. -/
structure IsLabelled (storer : Storer) : Prop where
  call : ∀ call ∈ storer.call?, ∀ buffer ∈ call.buffer?, buffer.batch.IsLabelled
  storing : ∀ buffer, storer.phase = .storing buffer → buffer.batch.IsLabelled

variable {assured : Prop} {time : Moment} {storer after : Storer} {pool poolAfter : Pool}
  {files changed : Files}

/-- Sort-and-store that goes on with an operation on the pool. -/
theorem isLabelled_of_call {call : Pool.Call}
    (busy : after.phase = .acquiring call ∨ after.phase = .returning call)
    (hand : ∀ buffer ∈ call.buffer?.toList, buffer.batch.IsLabelled) : after.IsLabelled := by
  have named : after.call? = some call := busy.elim call?_of_acquiring call?_of_returning
  refine ⟨?_, fun buffer stores => ?_⟩
  · rw [named]
    intro other same buffer named
    cases same
    exact hand buffer (Option.mem_toList.mpr named)
  · rcases busy with other | other <;> cases other.symm.trans stores

/-- Whatever sort-and-store does, all buffers stay labelled. -/
theorem Moves.isLabelled (step : Moves assured time storer pool files after poolAfter changed)
    (labelled : storer.IsLabelled) (pools : pool.Holds EntryBatch.IsLabelled) :
    after.IsLabelled ∧ poolAfter.Holds EntryBatch.IsLabelled := by
  have advance {call : Pool.Call} {progress : Pool.Progress} (busy : storer.call? = some call)
      (step : Pool.Call.Advances pool storer.cancelled call poolAfter progress) :
      poolAfter.Holds EntryBatch.IsLabelled ∧
        ∀ buffer ∈ progress.buffers, buffer.batch.IsLabelled :=
    step.keeps (fun _ _ => EntryBatch.isLabelled_of_keys rfl) pools (labelled.call call busy)
  cases step with
  | fetching phase kind step =>
    rcases advance (call?_of_acquiring phase) step with ⟨later, hand⟩
    exact ⟨isLabelled_of_call (.inl rfl) hand, later⟩
  | fetched phase kind step =>
    rcases advance (call?_of_acquiring phase) step with ⟨later, hand⟩
    refine ⟨⟨nofun, fun buffer stores => ?_⟩, later⟩
    cases stores
    exact hand _ List.mem_cons_self
  | stored phase done =>
    rcases store_ok done with ⟨entries, answer, -, -, rfl⟩
    have sorted := (labelled.storing _ phase).sort
    exact ⟨isLabelled_of_call (.inr rfl) (List.forall_mem_singleton.mpr sorted), pools⟩
  | returning phase kind step =>
    rcases advance (call?_of_returning phase) step with ⟨later, hand⟩
    exact ⟨isLabelled_of_call (.inr rfl) hand, later⟩
  | returned phase kind step =>
    rcases advance (call?_of_returning phase) step with ⟨later, -⟩
    exact ⟨isLabelled_of_call (.inl rfl) nofun, later⟩
  | ended phase kind step | fetchFailed phase kind step =>
    rcases advance (call?_of_acquiring phase) step with ⟨later, -⟩
    exact ⟨⟨nofun, nofun⟩, later⟩
  | returnFailed phase kind step =>
    rcases advance (call?_of_returning phase) step with ⟨later, -⟩
    exact ⟨⟨nofun, nofun⟩, later⟩
  | storeFailed => exact ⟨⟨nofun, nofun⟩, pools⟩

end Storer

/-! ## Dumps -/

namespace Dump

variable {σ : Type} {job : Job σ} {assured : Prop} {time : Moment} {dump after : Dump σ}
  {files changed : Files} {action : Action}

/-- All buffers of a dump are labelled. -/
structure IsLabelled (dump : Dump σ) : Prop where
  workers : ∀ worker ∈ dump.workers, worker.IsLabelled
  pool : dump.shared.pool.Holds EntryBatch.IsLabelled
  storer : dump.storer.IsLabelled

/-- A buffer that a worker submits or has submitted and that has not been returned: it is offered, or it
waits to be fetched, or sort-and-store has it. -/
inductive Submits (dump : Dump σ) (buffer : Buffer) : Prop
  | offered {worker : Worker} (member : worker ∈ dump.workers) (offers : buffer ∈ worker.offered)
  | waiting (member : .buffer buffer ∈ dump.shared.pool.fulls.items)
  | fetched (call : dump.storer.call? = some (.tookFull buffer))
  | storing (phase : dump.storer.phase = .storing buffer)

theorem IsLabelled.of_submits (labelled : dump.IsLabelled) {buffer : Buffer}
    (submits : dump.Submits buffer) : buffer.batch.IsLabelled := by
  cases submits with
  | @offered worker member offers =>
    unfold Worker.offered at offers
    split at offers
    next call busy =>
      refine (labelled.workers worker member).call call busy buffer ?_
      cases call with
      | submit | countFull | offerFull =>
        rw [List.mem_singleton.mp offers]
        rfl
      | _ => cases offers
    next => cases offers
  | waiting member => exact labelled.pool.fulls buffer member
  | fetched call => exact labelled.storer.call _ call buffer rfl
  | storing phase => exact labelled.storer.storing buffer phase

theorem IsLabelled.cancel (labelled : dump.IsLabelled) (stage : Stage) :
    (dump.cancel stage).IsLabelled := by
  refine ⟨forall_mem_cancel_workers (fun _ => Worker.IsLabelled.cancel) labelled.workers stage,
    ?_, ?_⟩
  · rw [cancel_shared]
    exact labelled.pool
  · cases stage with
    | sortAndStore => exact ⟨labelled.storer.call, labelled.storer.storing⟩
    | _ => exact labelled.storer

/-- The coordinator has no buffer in hand. -/
theorem IsLabelled.advance (labelled : dump.IsLabelled) {call : Pool.Call} {pool : Pool}
    {progress : Pool.Progress} (kind : call.kind = .signal ∨ call.kind = .drain)
    (step : Pool.Call.Advances dump.shared.pool false call pool progress) :
    pool.Holds EntryBatch.IsLabelled := by
  have none : ∀ buffer, call.buffer? = some buffer → buffer.batch.IsLabelled := by
    intro buffer named
    cases call with
    | signalEnd | placeEnd | drain | drained => cases named
    | _ => rcases kind with other | other <;> cases other
  exact (step.keeps (fun _ _ => EntryBatch.isLabelled_of_keys rfl) labelled.pool none).1

theorem IsLabelled.coordinate (labelled : dump.IsLabelled) (ends : dump.Ends job)
    (step : dump.Coordinates assured time files after changed) : after.IsLabelled := by
  have shaped := ends.coordinator
  cases step with
  | signalling phase advance | signalled phase advance | signalFailed phase advance =>
    simp only [Coordinator.IsShaped, phase] at shaped
    exact ⟨labelled.workers, labelled.advance (.inl shaped) advance, labelled.storer⟩
  | draining phase advance | drained phase advance | drainFailed phase advance =>
    simp only [Coordinator.IsShaped, phase] at shaped
    exact ⟨labelled.workers, labelled.advance (.inr shaped) advance, labelled.storer⟩
  | @cancelled cause stage left phase =>
    have kept := labelled.cancel stage
    exact ⟨kept.workers, kept.pool, kept.storer⟩
  | _ => exact ⟨labelled.workers, labelled.pool, labelled.storer⟩

/-- Whatever is done, all buffers stay labelled. -/
theorem IsLabelled.move [RecordSource σ] (labelled : dump.IsLabelled) (ends : dump.Ends job)
    (step : Moves job assured time dump files action after changed) : after.IsLabelled := by
  cases step with
  | download step => exact ⟨labelled.workers, labelled.pool, labelled.storer⟩
  | worker here step =>
    have member := List.mem_of_getElem? here
    rcases step.isLabelled (labelled.workers _ member) labelled.pool with ⟨worked, pool⟩
    exact ⟨forall_mem_set worked labelled.workers, pool, labelled.storer⟩
  | storer step =>
    rcases step.isLabelled labelled.storer labelled.pool with ⟨storer, pool⟩
    exact ⟨labelled.workers, pool, storer⟩
  | join step => cases step <;> exact ⟨labelled.workers, labelled.pool, labelled.storer⟩
  | coordinate step => exact labelled.coordinate ends step

end Dump

/-- In every world that is reached all buffers are labelled. -/
theorem Job.Reaches.isLabelled {σ : Type} [RecordSource σ] {job : Job σ} {assured : Prop}
    {files₀ : Files} {actions : List Action} {log : List (Nat × Record)} {world : World σ}
    (reached : job.Reaches assured files₀ actions log world) : world.dump.IsLabelled := by
  induction reached using Job.Reaches.rec_moves with
  | opened time started opens =>
    have empty : (EntryBatch.empty job.settings.budget.bufferBytes
        job.settings.budget.entriesPerBuffer).IsLabelled :=
      EntryBatch.isLabelled_of_keys rfl
    refine ⟨fun worker member => ?_, Pool.holds_create _ _ _ empty, ⟨?_, nofun⟩⟩
    · rcases List.mem_map.mp member with ⟨number, -, rfl⟩
      exact ⟨nofun, nofun, nofun⟩
    · intro call busy
      cases busy
      exact nofun
  | move before _ step ih => exact ih.move before.ends step

/-! ## What is encoded is decoded -/

namespace Entry

/-- A payload that is encoded is decoded as its path and the bytes of the JSON of the fields, and none is
encoded for a path with a bar.  Bytes are decoded just where they have a bar and what stands before the
first one is UTF-8; they are then the bytes of the path, which has no bar, a bar, and those of the JSON.
So in a batch that a worker submits, whatever the job and however far it has come, every key names the
path of its payload, before the batch is sorted and after that, and what is stored of it is all that
the payloads say. -/
theorem decode_inverts_encode :
    (∀ blobs path fields payload, encode blobs path fields = .ok payload →
      ∃ text, json blobs fields = .ok text ∧ decode payload = .ok (path, Utf8.encode text)) ∧
    (∀ blobs path fields, '|' ∈ path.toList →
      encode blobs path fields =
        .error (.validation s!"path '{path}' contains the entry delimiter '|'")) ∧
    (∀ payload, (∃ parts, decode payload = .ok parts) ↔
      delimiter ∈ payload ∧ (payload.takeWhile (· != delimiter)).toByteArray.IsValidUTF8) ∧
    (∀ payload path json, decode payload = .ok (path, json) →
      Utf8.encode path ++ [delimiter] ++ json = payload ∧ '|' ∉ path.toList) ∧
    ∀ {σ : Type} [RecordSource σ] (job : Job σ) (assured : Prop) (files₀ : Files)
      (actions : List Action) (log : List (Nat × Record)) (world : World σ),
      job.Reaches assured files₀ actions log world →
      ∀ buffer, world.dump.Submits buffer → ∀ batch ∈ [buffer.batch, buffer.batch.sort],
        (∀ key ∈ batch.keys, ∃ payload json, batch.payloadAt key.offset = .ok payload ∧
          decode payload = .ok (key.path, json)) ∧
        ∃ entries, batch.storedEntries = .ok entries ∧
          List.Forall₂ (fun key (entry : StoredEntry) => entry.path = key.path ∧
            batch.payloadAt key.offset = .ok entry.payload) batch.keys entries := by
  refine ⟨fun blobs path fields payload => decode_of_encode,
    fun blobs path fields => encode_of_bar, fun payload => exists_decode_iff,
    fun payload path json read => ?_,
    fun job assured files₀ actions log world reached buffer submits batch listed => ?_⟩
  · rcases eq_of_decode read with ⟨made, noBar⟩
    rw [made, List.append_assoc]
    exact ⟨rfl, noBar⟩
  · have labelled := reached.isLabelled.of_submits submits
    have either : batch.IsLabelled := by
      rcases List.mem_cons.mp listed with before | after
      · exact before ▸ labelled
      · exact List.mem_singleton.mp after ▸ labelled.sort
    exact ⟨either, either.storedEntries⟩

/-- A path with a letter of two bytes and JSON with a bar; and a round of the small job in which a buffer
is stored. -/
theorem decode_inverts_encode_somewhere :
    (∃ payload, encode .passthrough "/ä" [("t", .string "a|b")] = .ok payload ∧
      decode payload = .ok ("/ä", Utf8.encode "\x7b\"t\":\"a|b\"\x7d")) ∧
    (∃ cause, encode .passthrough "/a|b" [] = .error cause) ∧
    ¬ (∃ parts, decode [0xC3, 0x7C, 0xA4] = .ok parts) ∧
    ∃ actions log buffer, (Job.small 2).Reaches True {} actions log (Job.smallWorld 2 12) ∧
      (Job.smallWorld 2 12).dump.Submits buffer ∧ buffer.batch.sort.keys ≠ [] ∧
      ∀ key ∈ buffer.batch.sort.keys, ∃ payload json,
        buffer.batch.sort.payloadAt key.offset = .ok payload ∧
        decode payload = .ok (key.path, json) := by
  rcases decode_inverts_encode with ⟨inverts, refuses, reads, -, submitted⟩
  rcases Job.small_reaches 2 12 (by decide +kernel) with ⟨actions, log, reached⟩
  have stores : (match (Job.smallWorld 2 12).dump.storer.phase with
    | .storing buffer => buffer.batch.sort.keys.length == 1
    | _ => false) = true := by decide +kernel
  have unread : ¬ (∃ parts, decode [0xC3, 0x7C, 0xA4] = .ok parts) := by
    rintro ⟨parts, read⟩
    have : (decode [0xC3, 0x7C, 0xA4]).isOk = false := by decide +kernel
    rw [read] at this
    cases this
  refine ⟨?_, ⟨_, refuses .passthrough "/a|b" [] (by decide)⟩, unread, ?_⟩
  · rcases inverts .passthrough "/ä" [("t", .string "a|b")]
      (Utf8.encode "/ä" ++ delimiter :: Utf8.encode "\x7b\"t\":\"a|b\"\x7d") (by decide +kernel)
      with ⟨text, made, read⟩
    have same : json .passthrough [("t", .string "a|b")] = .ok "\x7b\"t\":\"a|b\"\x7d" := by
      decide +kernel
    cases made.symm.trans same
    exact ⟨_, by decide +kernel, read⟩
  · split at stores
    next buffer phase =>
      rcases submitted (Job.small 2) _ _ _ _ _ reached buffer (.storing phase) buffer.batch.sort
        (List.mem_cons_of_mem _ List.mem_cons_self) with ⟨all, -⟩
      refine ⟨actions, log, buffer, reached, .storing phase, fun none => ?_, all⟩
      rw [none] at stores
      cases stores
    next => cases stores

end Entry

end TreeExport

import TreeExport.Proofs.Dump.Flow
import TreeExport.Proofs.Dump.Turns
import TreeExport.Proofs.Memory.Words

/-!
# Sizes, offsets and lengths

Sizes are planned in words of 64 bits, and offsets and lengths are written in words of 32.
`MemoryBudget.stays_within_words`: neither can be too small.  The plan is reckoned without any fault;
as no buffer is greater than `Memory.maxBufferBytes`, whatever a dump packs into one has offsets and
lengths below the limit (`Job.Reaches.isPacked`), and so does what a merge reads back.
-/

namespace TreeExport

variable {σ : Type}

/-! ## Buffers of a dump -/

namespace Dump

/-- Whatever else the stages have done, their buffers are as they should be. -/
structure IsPacked (job : Job σ) (dump : Dump σ) : Prop where
  workers : ∀ worker ∈ dump.workers, ∃ received taken sent,
    worker.Accounts job.extraction job.settings.budget.bufferBytes
      job.settings.budget.entriesPerBuffer received taken sent
  pool : dump.shared.pool.IsSound job.settings.budget.bufferBytes
    job.settings.budget.entriesPerBuffer
  storer : dump.storer.IsSound job.settings.budget.bufferBytes
    job.settings.budget.entriesPerBuffer

/-- A buffer that a worker fills, that is in the pool, or that sort-and-store is to store. -/
inductive Has (dump : Dump σ) (buffer : Buffer) : Prop
  | filling {worker : Worker} (member : worker ∈ dump.workers)
      (current : worker.current = some buffer)
  | empty (member : buffer ∈ dump.shared.pool.empties.items)
  | full (member : .buffer buffer ∈ dump.shared.pool.fulls.items)
  | storing (phase : dump.storer.phase = .storing buffer)

variable {job : Job σ} {assured : Prop} {time : Moment} {dump after : Dump σ}
  {files changed : Files} {action : Action} {buffer : Buffer}

theorem IsPacked.of_same (isPacked : dump.IsPacked job) (workers : after.workers = dump.workers)
    (storer : after.storer = dump.storer)
    (pool : after.shared.pool.IsSound job.settings.budget.bufferBytes
      job.settings.budget.entriesPerBuffer) : after.IsPacked job := by
  refine ⟨?_, pool, ?_⟩
  · rw [workers]
    exact isPacked.workers
  · rw [storer]
    exact isPacked.storer

theorem IsPacked.cancel (isPacked : dump.IsPacked job) (stage : Stage) :
    (dump.cancel stage).IsPacked job := by
  cases stage with
  | download => exact isPacked.of_same rfl rfl isPacked.pool
  | transform id =>
    refine { isPacked with workers := fun worker member => ?_ }
    obtain ⟨other, here⟩ := List.mem_iff_getElem?.mp member
    have there : (dump.workers.modify id fun worker => { worker with cancelled := true })[other]? =
        some worker := here
    rw [List.getElem?_modify] at there
    obtain ⟨before, found, rfl⟩ := Option.map_eq_some_iff.mp there
    obtain ⟨received, taken, sent, accounts⟩ :=
      isPacked.workers before (List.mem_of_getElem? found)
    refine ⟨received, taken, sent, ?_⟩
    split
    · exact accounts.cancel
    · exact accounts
  | sortAndStore =>
    exact { isPacked with
      storer := ⟨fun call here => (isPacked.storer.call call here).cancel, isPacked.storer.buffer⟩ }

theorem IsPacked.coordinate (isPacked : dump.IsPacked job) (ends : dump.Ends job)
    (step : dump.Coordinates assured time files after changed) : after.IsPacked job := by
  have shaped := ends.coordinator
  cases step with
  | signalling phase advance | signalled phase advance | signalFailed phase advance =>
    simp only [Coordinator.IsShaped, phase] at shaped
    exact isPacked.of_same rfl rfl (advance.isSound_of_coordinator (.inl shaped) isPacked.pool)
  | draining phase advance | drained phase advance | drainFailed phase advance =>
    simp only [Coordinator.IsShaped, phase] at shaped
    exact isPacked.of_same rfl rfl (advance.isSound_of_coordinator (.inr shaped) isPacked.pool)
  | @cancelled cause stage left phase =>
    have kept := isPacked.cancel stage
    exact kept.of_same rfl rfl kept.pool
  | _ => exact isPacked.of_same rfl rfl isPacked.pool

/-- A buffer that the dump has is packed with some entries, or with none. -/
theorem IsPacked.packs (isPacked : dump.IsPacked job) (has : dump.Has buffer) :
    ∃ entries, EntryBatch.Packs job.settings.budget.bufferBytes
      job.settings.budget.entriesPerBuffer buffer.batch entries := by
  cases has with
  | filling member current =>
    obtain ⟨_, _, _, accounts⟩ := isPacked.workers _ member
    exact accounts.sound.current buffer current
  | empty member =>
    rw [isPacked.pool.blank buffer member]
    exact ⟨[], .empty⟩
  | full member =>
    obtain ⟨entries, packs, -⟩ := isPacked.pool.filled buffer member
    exact ⟨entries, packs⟩
  | storing phase =>
    obtain ⟨entries, packs, -⟩ := isPacked.storer.buffer buffer phase
    exact ⟨entries, packs⟩

/-- Whatever is done, the buffers stay as they should be. -/
theorem IsPacked.move [RecordSource σ] (isPacked : dump.IsPacked job) (ends : dump.Ends job)
    (sized : job.settings.IsSized) {filled : List Buffer} {marks : Nat}
    (stocking : dump.Stocking job filled marks)
    (step : Moves job assured time dump files action after changed) : after.IsPacked job := by
  cases step with
  | download step => exact isPacked.of_same rfl rfl isPacked.pool
  | @worker id side worker worked shared here step =>
    have member := List.mem_of_getElem? here
    have goesOn : dump.shared.pool.ended = false := Bool.eq_false_iff.mpr fun ended =>
      absurd (stocking.isOver ended worker member) step.phase_ne_finished
    obtain ⟨received, taken, sent, accounts⟩ := isPacked.workers worker member
    obtain ⟨_, _, -, -, pool, accountsAfter⟩ := step.accounts (ends.shaped worker member) accounts
      isPacked.pool goesOn sized.bytes sized.entries
    exact ⟨forall_mem_set ⟨_, _, _, accountsAfter⟩ isPacked.workers, pool, isPacked.storer⟩
  | storer step =>
    obtain ⟨storer, pool⟩ := step.isSound isPacked.storer isPacked.pool
    exact ⟨isPacked.workers, pool, storer⟩
  | join step => cases step <;> exact isPacked.of_same rfl rfl isPacked.pool
  | coordinate step => exact isPacked.coordinate ends step

end Dump

/-- In every world that is reached, buffers are as they should be. -/
theorem Job.Reaches.isPacked [RecordSource σ] {job : Job σ} {assured : Prop} {files₀ : Files} {actions : List Action}
    {log : List (Nat × Record)} {world : World σ}
    (reached : job.Reaches assured files₀ actions log world) (sized : job.settings.IsSized) :
    world.dump.IsPacked job := by
  induction reached using Job.Reaches.rec_moves with
  | opened time started opens =>
    refine ⟨fun worker member => ?_, Pool.isSound_create _ _ _,
      ⟨fun call busy => ?_, nofun⟩⟩
    · obtain ⟨number, _, rfl⟩ := List.mem_map.mp member
      exact ⟨_, _, _, Worker.accounts_start number⟩
    · cases busy
      trivial
  | move before _ step ih =>
    obtain ⟨filled, marks, stocking, -⟩ := before.stocking sized.workers
    exact ih.move before.ends sized stocking step

/-! ## Offsets and lengths -/

theorem EntryBatch.Packs.fitsLimit {capacity maxEntries : Nat} {batch : EntryBatch}
    {entries : List StoredEntry} (packs : Packs capacity maxEntries batch entries)
    (small : capacity < Length.limit) : batch.FitsLimit := by
  refine fitsLimit_of_readable (packs.capacity_eq ▸ small) (packs.capacity_eq ▸ packs.size_le)
    fun key member => ?_
  have listed : (key.path, batch.payloadAt key.offset) ∈ batch.payloads :=
    List.mem_map_of_mem member
  rw [packs.payloads] at listed
  obtain ⟨entry, -, same⟩ := List.mem_map.mp listed
  exact ⟨entry.payload, (Prod.mk.inj same).2.symm⟩

/-- The entries of a run that is read from a node of a file tree have lengths that can be written. -/
theorem Run.short_ofNode (path : String) (node : Node) :
    ∀ entry ∈ (ofNode path node).entries, entry.IsShort := by
  cases node with
  | file content => exact Reading.short_ofFeed
  | directory => exact fun _ none => absurd none List.not_mem_nil

/-- What a merge of files writes can be written. -/
theorem Merging.encode_of_mem {nodes : List (String × Node)} {entry : StoredEntry}
    (member : entry ∈ (ofRuns (nodes.map fun node => Run.ofNode node.1 node.2)).entries) :
    entry.encode = .ok entry.bytes := by
  obtain ⟨run, listed, inRun⟩ := mem_of_mem_ofRuns member
  obtain ⟨node, -, rfl⟩ := List.mem_map.mp listed
  exact StoredEntry.encode_of_isShort (Run.short_ofNode node.1 node.2 entry inRun)

/-- What sort-and-store appends to the store can be written. -/
theorem Dump.IsPacked.encode_of_storing {job : Job σ} {dump : Dump σ} {buffer : Buffer}
    (isPacked : dump.IsPacked job) (phase : dump.storer.phase = .storing buffer) :
    ∃ entries, buffer.batch.sort.storedEntries = .ok entries ∧
      ∀ entry ∈ entries, entry.encode = .ok entry.bytes := by
  obtain ⟨entries, packs, -⟩ := isPacked.storer.buffer buffer phase
  exact ⟨_, packs.storedEntries_sort, fun entry member =>
    StoredEntry.encode_of_isShort (packs.isShort entry (mem_stableSort.mp member))⟩

namespace MemoryBudget

variable {total workers percentage : Nat} {budget : MemoryBudget}

theorem IsPlan.bytes_le (isPlan : IsPlan total workers percentage budget) :
    budget.bufferBytes ≤ Memory.maxBufferBytes := by
  rw [isPlan.bytes]
  exact Nat.min_le_right _ _

/-- The entry cap is never the one that stands in for zero. -/
theorem IsPlan.entries_eq (isPlan : IsPlan total workers percentage budget) :
    budget.entriesPerBuffer = budget.sortKeyReserve / Memory.sortKeyBytes ∧
      1 ≤ budget.sortKeyReserve / Memory.sortKeyBytes := by
  have many := isPlan.sortKeyBytes_lt_reserve
  have entries := isPlan.entries
  unfold Memory.sortKeyBytes at *
  omega

/-- The plan is reckoned in words without a fault, for all sizes of the memory and numbers of workers
and percentages.  It is refused just where there are no workers, where the percentage is none, or where
the even share is less than 32 mebibytes; else its buffers have between 32 mebibytes and `2^31 - 17`
bytes and fit in the memory with the sort keys of one, and there is room in these for every entry of a
buffer.  Whatever a batch of that size is asked, and whatever a dump with such buffers comes to, no
offset and no length is too great for 32 bits; nor is one in what sort-and-store writes, or a merge. -/
theorem stays_within_words (total : UInt64) (workers percentage : UInt32) :
    (∀ buffers : UInt64, Word.Gives (Memory.sortKeyReserveWords total buffers percentage)
      (Memory.sortKeyReserve total.toNat buffers.toNat percentage.toNat)) ∧
    planWords total workers.toUInt64 percentage =
      .ok (plan total.toNat workers.toNat percentage.toNat) ∧
    ((∃ budget, plan total.toNat workers.toNat percentage.toNat = .ok budget) ↔
      1 ≤ workers.toNat ∧ 1 ≤ percentage.toNat ∧ percentage.toNat ≤ 100 ∧
        32 * 1024 * 1024 ≤ (total.toNat -
          Memory.sortKeyReserve total.toNat (workers.toNat + 1) percentage.toNat) /
            (workers.toNat + 1)) ∧
    (∀ budget, plan total.toNat workers.toNat percentage.toNat = .ok budget →
      (32 * 1024 * 1024 ≤ budget.bufferBytes ∧ budget.bufferBytes ≤ 2 ^ 31 - 17) ∧
      budget.buffers * budget.bufferBytes + budget.sortKeyReserve ≤ total.toNat ∧
      (1 ≤ budget.entriesPerBuffer ∧ 256 * budget.entriesPerBuffer ≤ budget.sortKeyReserve ∧
        budget.entriesPerBuffer = budget.sortKeyReserve / 256) ∧
      (∀ calls answers batch,
        (EntryBatch.empty budget.bufferBytes budget.entriesPerBuffer).calls calls =
          (answers, batch) →
        batch.FitsLimit ∧ ∀ path, .refused (.tooLong path) ∉ answers) ∧
      ∀ {σ : Type} [RecordSource σ] (job : Job σ) (assured : Prop) (files₀ : Files)
        (actions : List Action) (log : List (Nat × Record)) (world : World σ),
        job.settings.Stands → job.settings.budget = budget →
        job.Reaches assured files₀ actions log world →
        (∀ buffer, world.dump.Has buffer → buffer.batch.FitsLimit) ∧
        ∀ buffer, world.dump.storer.phase = .storing buffer →
          ∃ entries, buffer.batch.sort.storedEntries = .ok entries ∧
            ∀ entry ∈ entries, entry.encode = .ok entry.bytes) ∧
    ∀ nodes : List (String × Node),
      ∀ entry ∈ (Merging.ofRuns (nodes.map fun node => Run.ofNode node.1 node.2)).entries,
        entry.encode = .ok entry.bytes := by
  refine ⟨fun buffers => Memory.sortKeyReserveWords_gives total buffers percentage,
    planWords_eq total percentage workers.toNat_lt, exists_plan_iff, fun budget planned => ?_,
    fun nodes entry member => Merging.encode_of_mem member⟩
  have isPlan := isPlan_of_plan planned
  have small : budget.bufferBytes < Length.limit :=
    Nat.lt_of_le_of_lt isPlan.bytes_le (by decide)
  obtain ⟨entries, some⟩ := isPlan.entries_eq
  refine ⟨⟨isPlan.great, isPlan.bytes_le⟩, isPlan.buffers_fit,
    ⟨entries ▸ some, isPlan.entries_fit.1, entries⟩, fun calls answers batch made => ?_,
    fun job assured files₀ actions log world stands same reached => ?_⟩
  · have empty := EntryBatch.holds_empty budget.bufferBytes budget.entriesPerBuffer
    have held := empty.run fun call (_ : call ∈ calls) => .inl small
    have answered := empty.notMem_tooLong small calls
    rw [made] at held answered
    exact ⟨held.fitsLimit small, answered⟩
  · have isPacked := reached.isPacked stands.isSized
    refine ⟨fun buffer has => ?_, fun buffer phase => isPacked.encode_of_storing phase⟩
    obtain ⟨entries, packs⟩ := isPacked.packs has
    exact packs.fitsLimit (same ▸ small)

/-- The plan of the small job, a call of a batch of its size, and a round of it in which a buffer is
stored. -/
theorem small_within_words : plan 0x10000000 2 25 = .ok (Job.small 2).settings.budget ∧
    (Job.small 2).settings.Stands ∧
    ((EntryBatch.empty (Job.small 2).settings.budget.bufferBytes
      (Job.small 2).settings.budget.entriesPerBuffer).calls [.add "/a" [0x31]]).2.FitsLimit ∧
    ∃ actions log buffer, (Job.small 2).Reaches True {} actions log (Job.smallWorld 2 12) ∧
      (Job.smallWorld 2 12).dump.storer.phase = .storing buffer ∧ buffer.batch.FitsLimit ∧
      ∃ entries, buffer.batch.sort.storedEntries = .ok entries ∧
        ∀ entry ∈ entries, entry.encode = .ok entry.bytes := by
  have planned : plan 0x10000000 2 25 = .ok (Job.small 2).settings.budget := by decide +kernel
  obtain ⟨-, -, -, planned_fits, -⟩ := stays_within_words 0x10000000 2 25
  obtain ⟨-, -, -, batches, dumps⟩ := planned_fits _ planned
  obtain ⟨actions, log, reached⟩ := Job.small_reaches 2 12 (by decide +kernel)
  obtain ⟨fits, written⟩ := dumps (Job.small 2) _ _ _ _ _ Job.small_stands rfl reached
  have stores : (match (Job.smallWorld 2 12).dump.storer.phase with
    | .storing _ => true
    | _ => false) = true := by decide +kernel
  refine ⟨planned, Job.small_stands, (batches _ _ _ rfl).1, ?_⟩
  split at stores
  · next buffer phase =>
    exact ⟨actions, log, buffer, reached, phase, fits buffer (.storing phase), written buffer phase⟩
  · cases stores

end MemoryBudget

end TreeExport

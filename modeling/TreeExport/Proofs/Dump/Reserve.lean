import TreeExport.Proofs.Dump.Smooth
import TreeExport.Proofs.Dump.Turns
import TreeExport.Proofs.Settings.Words
import TreeExport.Proofs.Source.Words

/-!
# The memory of the raw queue

A batch that waits in the raw queue is as large as a batch may be at most, if no record alone is larger;
there are no more of them than the queue has places, and it has so many places as batches of that size
fit in the memory that is reserved for it.  So whatever happens, the queue stays within that memory, and
no sum of sizes on the way overflows (`Job.queue_stays_in_reserve`).
-/

namespace TreeExport

/-! ## Batches that a source hands out -/

/-- No record that the request lets through is larger than a batch may be. -/
def BatchRequest.HasNoLarge (request : BatchRequest) (lists : List (List SizedRecord)) : Prop :=
  ∀ sized ∈ request.wanted lists.flatten, sized.2 ≤ request.maxBytes

namespace BatchRequest

variable {request : BatchRequest} {lists after : List (List SizedRecord)} {part : List SizedRecord}

/-- Then no batch is larger, not even one of a single record. -/
theorem HasNoLarge.size_le (small : request.HasNoLarge lists)
    (takes : request.Takes lists part after) :
    (RecordBatch.ofSized part).size ≤ request.maxBytes := by
  rcases takes.bounds.size with within | alone
  · exact within
  · obtain ⟨sized, rfl⟩ := List.length_eq_one_iff.mp alone
    refine small sized ?_
    rw [takes.split]
    exact List.mem_cons_self

theorem HasNoLarge.of_takes (small : request.HasNoLarge lists)
    (takes : request.Takes lists part after) : request.HasNoLarge after := by
  intro sized member
  refine small sized ?_
  rw [takes.split]
  exact List.mem_append_right _ member

end BatchRequest

/-- The bytes of an item. -/
def RawItem.size : RawItem → Nat
  | .batch content => content.size
  | .endOfStream => 0

/-- The bytes that wait in the raw queue. -/
def Queue.bytes (raw : Queue RawItem) : Nat :=
  total (raw.items.map RawItem.size)

/-- The raw queue has no more items than places, and none of them is larger than a bound. -/
structure Queue.IsBounded (raw : Queue RawItem) (bound : Nat) : Prop where
  length : raw.items.length ≤ raw.capacity
  items : ∀ item ∈ raw.items, item.size ≤ bound

namespace Queue.IsBounded

variable {raw other : Queue RawItem} {bound : Nat}

theorem of_same (bounded : raw.IsBounded bound) (capacity : other.capacity = raw.capacity)
    (items : other.items = raw.items) : other.IsBounded bound := by
  refine ⟨?_, ?_⟩
  · rw [capacity, items]
    exact bounded.length
  · rw [items]
    exact bounded.items

theorem append (bounded : raw.IsBounded bound) {item : RawItem}
    (room : raw.items.length < raw.capacity) (small : item.size ≤ bound) :
    ({ raw with items := raw.items ++ [item] } : Queue RawItem).IsBounded bound := by
  refine ⟨?_, List.forall_mem_append.mpr ⟨bounded.items, List.forall_mem_singleton.mpr small⟩⟩
  rw [List.length_append, List.length_singleton]
  exact room

theorem tail (bounded : raw.IsBounded bound) {first : RawItem} {rest : List RawItem}
    (items : raw.items = first :: rest) :
    ({ raw with items := rest } : Queue RawItem).IsBounded bound := by
  have length := bounded.length
  have small := bounded.items
  rw [items] at length small
  exact ⟨Nat.le_of_succ_le length, (List.forall_mem_cons.mp small).2⟩

/-- All items together are no larger than as many of the greatest as there are places. -/
theorem bytes_le (bounded : raw.IsBounded bound) : raw.bytes ≤ raw.capacity * bound :=
  calc raw.bytes
      ≤ raw.items.length * bound := total_le_length_mul bounded.items
    _ ≤ raw.capacity * bound := Nat.mul_le_mul_right bound bounded.length

end Queue.IsBounded

/-! ## What a step does -/

/-- The batch in hand is no larger than a batch may be, and as long as the download has not failed, no
record that is to come is. -/
structure Download.IsBounded (request : BatchRequest) (download : Download Source) : Prop where
  hand : ∀ batch attempt, download.phase = .sending batch attempt → batch.size ≤ request.maxBytes
  source : download.IsWell → request.HasNoLarge download.source.left

namespace Download

variable {request : BatchRequest} {download after : Download Source} {raw rawAfter : Queue RawItem}

theorem Moves.isBounded (step : Moves request download raw after rawAfter)
    (positive : 0 < request.maxDocuments) (bounded : download.IsBounded request)
    (queue : raw.IsBounded request.maxBytes) :
    after.IsBounded request ∧ rawAfter.IsBounded request.maxBytes := by
  have small := bounded.source (isWell_of_outcome step.ends.1)
  have answers := Source.serves positive download.source
  cases step with
  | checkStopped | sendStopped | endStopped =>
    exact ⟨⟨nofun, fun well => absurd rfl (well _)⟩, queue⟩
  | sourceFailed => exact ⟨⟨nofun, fun well => absurd rfl (well _)⟩, queue⟩
  | checked | endReady => exact ⟨⟨nofun, fun _ => small⟩, queue⟩
  | sourceEnded phase answer =>
    rw [answer] at answers
    cases answers with
    | ended _ _ _ nothing =>
      refine ⟨⟨nofun, fun _ sized member => ?_⟩, queue⟩
      rw [nothing] at member
      cases member
  | gotEmpty phase answer empty =>
    rw [answer] at answers
    cases answers with
    | batch takes => exact ⟨⟨nofun, fun _ => small.of_takes takes⟩, queue⟩
  | got phase answer full =>
    rw [answer] at answers
    cases answers with
    | batch takes =>
      refine ⟨⟨?_, fun _ => small.of_takes takes⟩, queue⟩
      rintro batch attempt ⟨⟩
      exact small.size_le takes
  | sendReady phase =>
    refine ⟨⟨?_, fun _ => small⟩, queue⟩
    rintro batch attempt ⟨⟩
    exact bounded.hand _ _ phase
  | sent phase room => exact ⟨⟨nofun, fun _ => small⟩, queue.append room (bounded.hand _ _ phase)⟩
  | ended phase room => exact ⟨⟨nofun, fun _ => small⟩, queue.append room (Nat.zero_le _)⟩

end Download

theorem Worker.Moves.isBounded {extraction : Extraction} {worker after : Worker}
    {shared sharedAfter : Shared} {bound : Nat}
    (step : Moves extraction worker shared after sharedAfter)
    (bounded : shared.raw.IsBounded bound) : sharedAfter.raw.IsBounded bound := by
  cases step with
  | received phase first => exact bounded.tail first
  | receivedEnd phase first => exact bounded.tail first
  | forwarded phase room => exact bounded.append room (Nat.zero_le _)
  | _ => exact bounded

namespace Dump

variable {job : Job Source} {assured : Prop} {time : Moment} {dump after : Dump Source}
  {files changed : Files} {action : Action}

/-- The download and the raw queue keep to the bound on batches. -/
structure IsBounded (job : Job Source) (dump : Dump Source) : Prop where
  download : dump.download.IsBounded job.request
  queue : dump.shared.raw.IsBounded job.request.maxBytes

theorem IsBounded.move (bounded : dump.IsBounded job) (positive : 0 < job.request.maxDocuments)
    (step : Moves job assured time dump files action after changed) : after.IsBounded job := by
  obtain ⟨download, queue⟩ := bounded
  have leaves {raw : Queue RawItem} (ended receives : Bool)
      (bounded : raw.IsBounded job.request.maxBytes) :
      (leaveRaw ended receives raw).IsBounded job.request.maxBytes :=
    bounded.of_same (leaveRaw_capacity _ _ _) (leaveRaw_items _ _ _)
  cases step with
  | download step =>
    obtain ⟨downloaded, raw⟩ := step.isBounded positive download queue
    exact ⟨downloaded, leaves _ _ raw⟩
  | worker here step => exact ⟨download, leaves _ _ (step.isBounded queue)⟩
  | storer step => exact ⟨download, queue⟩
  | join step => cases step <;> exact ⟨download, queue⟩
  | coordinate step =>
    cases step with
    | started phase => exact ⟨download, leaves true true queue⟩
    | @cancelled _ stage _ phase =>
      refine ⟨?_, ?_⟩
      · cases stage with
        | download => exact ⟨download.hand, download.source⟩
        | _ => exact download
      · change (dump.cancel stage).shared.raw.IsBounded _
        rw [cancel_shared]
        exact queue
    | _ => exact ⟨download, queue⟩

end Dump

/-- As long as no record is larger than a batch may be, the bound on batches is kept. -/
theorem Job.Reaches.isBounded {job : Job Source} {assured : Prop} {files₀ : Files}
    {actions : List Action} {log : List (Nat × Record)} {world : World Source}
    (reached : job.Reaches assured files₀ actions log world)
    (positive : 0 < job.request.maxDocuments) (small : job.request.HasNoLarge job.source.left) :
    world.dump.IsBounded job := by
  induction reached using Job.Reaches.rec_moves with
  | opened time started opens =>
    exact ⟨⟨nofun, fun _ => small⟩, ⟨Nat.zero_le _, fun _ none => absurd none List.not_mem_nil⟩⟩
  | move before _ step ih => exact ih.move positive step

/-! ## The memory that is reserved -/

/-- So many batches as the queue has places for fit in the memory for the queue. -/
theorem PipelineConfig.queueCapacity_mul_le (config : PipelineConfig) :
    config.queueCapacity * (config.batchMebibytes * Memory.mebibyte) ≤
      config.queueMebibytes * Memory.mebibyte := by
  rw [← Nat.mul_assoc]
  refine Nat.mul_le_mul_right _ ?_
  calc config.queueCapacity * config.batchMebibytes
      ≤ config.queueMebibytes / max config.batchMebibytes 1 * max config.batchMebibytes 1 :=
        Nat.mul_le_mul_left _ (Nat.le_max_left _ _)
    _ ≤ config.queueMebibytes := Nat.div_mul_le_self _ _

theorem Settings.eq_of_resolve {config : PipelineConfig} {free : Nat} {settings : Settings}
    (resolved : resolve config free = .ok settings) :
    settings.batchBytes = config.batchMebibytes * Memory.mebibyte ∧
      settings.queueCapacity = config.queueCapacity ∧ 0 < settings.batchDocuments := by
  obtain ⟨valid, planned, -, queue, documents⟩ := of_resolve resolved
  have all := Except.ok.inj (resolved.symm.trans (resolve_of_plan valid planned))
  refine ⟨congrArg batchBytes all, queue, ?_⟩
  rw [documents]
  exact PipelineConfig.batchDocuments_of_validate valid

/-- Twice the bound on batches fits in a word, whatever the configuration. -/
theorem PipelineWords.two_mul_batch_lt (words : PipelineWords) :
    2 * (words.config.batchMebibytes * Memory.mebibyte) < UInt64.size := by
  have few : words.config.batchMebibytes ≤ 2 ^ 32 := Nat.le_of_lt words.batchMebibytes.toNat_lt
  calc 2 * (words.config.batchMebibytes * Memory.mebibyte)
      ≤ 2 * (2 ^ 32 * Memory.mebibyte) :=
        Nat.mul_le_mul_left 2 (Nat.mul_le_mul_right Memory.mebibyte few)
    _ < UInt64.size := by decide

/-- For every valid configuration the raw queue has at least eight places, and fixing the settings does
not overflow.  In every run of a source that holds no record larger than a batch may be, whatever has
been done in whatever order, the batches in the raw queue take no more than the memory that is reserved
for it, and whenever the source is asked, adding up the size of the next batch does not overflow. -/
theorem Job.queue_stays_in_reserve {words : PipelineWords} (valid : words.config.validate = .ok ())
    (free : UInt64) :
    8 ≤ words.config.queueCapacity ∧
    Settings.resolveWords words free = .ok (Settings.resolve words.config free.toNat) ∧
    ∀ (job : Job Source) (assured : Prop) (files₀ : Files) (actions : List Action)
      (log : List (Nat × Record)) (world : World Source),
      Settings.resolve words.config free.toNat = .ok job.settings →
      (∀ sized ∈ job.request.wanted job.source.left.flatten,
        sized.2 ≤ words.config.batchMebibytes * Memory.mebibyte) →
      job.Reaches assured files₀ actions log world →
      world.dump.shared.raw.capacity = words.config.queueCapacity ∧
      total (world.dump.shared.raw.items.map RawItem.size) ≤
        words.config.queueMebibytes * Memory.mebibyte ∧
      (world.dump.download.phase = .asking →
        world.dump.download.source.nextWords job.request =
          .ok (RecordSource.next job.request world.dump.download.source)) := by
  refine ⟨PipelineConfig.queueCapacity_of_validate valid, Settings.resolveWords_eq words free,
    fun job assured files₀ actions log world resolved small reached => ?_⟩
  obtain ⟨bound, places, positive⟩ := Settings.eq_of_resolve resolved
  have maxBytes : job.request.maxBytes = words.config.batchMebibytes * Memory.mebibyte := bound
  rw [← maxBytes] at small
  have bounded := reached.isBounded positive small
  have capacity := reached.ends.capacity.trans places
  refine ⟨capacity, ?_, fun asking => ?_⟩
  · have bytes := bounded.queue.bytes_le
    rw [capacity, maxBytes] at bytes
    exact Nat.le_trans bytes words.config.queueCapacity_mul_le
  · have fits : 2 * job.request.maxBytes < UInt64.size := by
      rw [maxBytes]
      exact words.two_mul_batch_lt
    refine Source.nextWords_eq fits _ (bounded.download.source fun cause failed => ?_)
    cases asking.symm.trans failed

namespace Job

/-- The figures of the small job with two workers. -/
def smallWords : PipelineWords :=
  ⟨4, 10000, 128, 2, 256, 25, 30, 30⟩

/-- The small job when the download has sent its batch and is about to ask for another one, and nobody
else has done anything. -/
def loadedWorld : World Source :=
  let run := (Dump.takeActions (small 2) (List.replicate 5 (.download .queue))
    (.start (small 2) { directory := "store" } ⟨0, 0⟩)).run ⟨0, 0⟩ smallFiles
  ⟨run.1, run.2⟩

theorem loaded_reaches : ∃ actions log, (small 2).Reaches True {} actions log loadedWorld := by
  have steady : Program.Steady ⟨0, 0⟩ (Dump.takeActions (small 2) (List.replicate 5 (.download .queue))
      (.start (small 2) { directory := "store" } ⟨0, 0⟩)) smallFiles := by
    decide +kernel
  exact (small_opens 2).takeActions (List.replicate 5 (.download .queue)) fun _ => steady

/-- The raw queue of the small job holds its batch, within 128 mebibytes. -/
theorem small_queue_in_reserve : ∃ actions log,
    (small 2).Reaches True {} actions log loadedWorld ∧
      loadedWorld.dump.shared.raw.items.length = 1 ∧
      total (loadedWorld.dump.shared.raw.items.map RawItem.size) ≤ 128 * Memory.mebibyte ∧
      loadedWorld.dump.download.source.nextWords (small 2).request =
        .ok (RecordSource.next (small 2).request loadedWorld.dump.download.source) := by
  obtain ⟨actions, log, reached⟩ := loaded_reaches
  have valid : smallWords.config.validate = .ok () := by decide +kernel
  have resolved : Settings.resolve smallWords.config (0 : UInt64).toNat = .ok (small 2).settings := by
    decide +kernel
  have small : ∀ sized ∈ (small 2).request.wanted (small 2).source.left.flatten,
      sized.2 ≤ smallWords.config.batchMebibytes * Memory.mebibyte := by
    decide +kernel
  have asking : loadedWorld.dump.download.phase = .asking := rfl
  obtain ⟨-, -, runs⟩ := queue_stays_in_reserve valid 0
  obtain ⟨-, bytes, sums⟩ := runs (Job.small 2) True {} actions log loadedWorld resolved small reached
  exact ⟨actions, log, reached, by decide +kernel, bytes, sums asking⟩

end Job

end TreeExport

import TreeExport.Config.Toml
import TreeExport.Proofs.Memory.Words
import TreeExport.Proofs.Settings

/-!
# Settings in words

A machine holds the figures of a dump in words of 32 and 64 bits and reckons the settings from them in
words of 64.  `Settings.resolveWords` is that reckoning, where every operation notices if its result does
not fit: none ever does, whatever the figures are, and the settings are those of the numbers that the
words stand for (`Settings.resolveWords_eq`).
-/

namespace TreeExport

theorem Word.toNat_lt (word : UInt32) : word.toUInt64.toNat < UInt32.size := by
  rw [UInt32.toNat_toUInt64]
  exact word.toNat_lt

/-- Two choices between results are the same if nothing goes wrong in those of the first. -/
theorem Word.ite_eq_ok {α : Type} {c d : Prop} [Decidable c] [Decidable d]
    {a b : Except Fault α} {x y : α} (same : c ↔ d) (first : a = .ok x) (second : b = .ok y) :
    (if c then a else b) = .ok (if d then x else y) := by
  by_cases chosen : d
  · rw [if_pos chosen, if_pos (same.mpr chosen), first]
  · rw [if_neg chosen, if_neg (mt same.mp chosen), second]

theorem Config.number?_lt {bits default n : Nat} {value : Option Toml} (few : default < Nat.pow 2 bits)
    (read : number? bits default value = some n) : n < Nat.pow 2 bits := by
  unfold number? at read
  split at read
  · cases read
    exact few
  · split at read
    · next fits =>
      cases read
      exact fits
    · cases read
  · cases read

/-- The figures of a dump in words. -/
structure PipelineWords where
  batchMebibytes : UInt32
  batchDocuments : UInt32
  queueMebibytes : UInt32
  workers : UInt32
  workingMebibytes : UInt32
  sortKeyPercentage : UInt32
  statisticsSeconds : UInt64
  graceSeconds : UInt64
  deriving Repr, DecidableEq

namespace PipelineWords

/-- The figures that the words stand for. -/
def config (words : PipelineWords) : PipelineConfig where
  batchMebibytes := words.batchMebibytes.toNat
  batchDocuments := words.batchDocuments.toNat
  queueMebibytes := words.queueMebibytes.toNat
  workers := words.workers.toNat
  workingMebibytes := words.workingMebibytes.toNat
  sortKeyPercentage := words.sortKeyPercentage.toNat
  statisticsSeconds := words.statisticsSeconds.toNat
  graceSeconds := words.graceSeconds.toNat

/-- Every configuration that is read is one of words. -/
theorem exists_config_eq {value : Option Toml} {config : PipelineConfig}
    (read : PipelineConfig.ofToml? value = some config) : ∃ words : PipelineWords, words.config = config := by
  obtain ⟨values, -, read⟩ := Option.bind_eq_some_iff.mp read
  split at read
  · obtain ⟨size, sizeRead, read⟩ := Option.bind_eq_some_iff.mp read
    obtain ⟨documents, documentsRead, read⟩ := Option.bind_eq_some_iff.mp read
    obtain ⟨queue, queueRead, read⟩ := Option.bind_eq_some_iff.mp read
    obtain ⟨workers, workersRead, read⟩ := Option.bind_eq_some_iff.mp read
    obtain ⟨memory, memoryRead, read⟩ := Option.bind_eq_some_iff.mp read
    obtain ⟨percentage, percentageRead, read⟩ := Option.bind_eq_some_iff.mp read
    obtain ⟨statistics, statisticsRead, read⟩ := Option.bind_eq_some_iff.mp read
    obtain ⟨grace, graceRead, read⟩ := Option.bind_eq_some_iff.mp read
    cases read
    refine ⟨⟨.ofNat size, .ofNat documents, .ofNat queue, .ofNat workers, .ofNat memory,
      .ofNat percentage, .ofNat statistics, .ofNat grace⟩, ?_⟩
    rw [PipelineWords.config, UInt32.toNat_ofNat_of_lt' (Config.number?_lt (by decide) sizeRead),
      UInt32.toNat_ofNat_of_lt' (Config.number?_lt (by decide) documentsRead),
      UInt32.toNat_ofNat_of_lt' (Config.number?_lt (by decide) queueRead),
      UInt32.toNat_ofNat_of_lt' (Config.number?_lt (by decide) workersRead),
      UInt32.toNat_ofNat_of_lt' (Config.number?_lt (by decide) memoryRead),
      UInt32.toNat_ofNat_of_lt' (Config.number?_lt (by decide) percentageRead),
      UInt64.toNat_ofNat_of_lt' (Config.number?_lt (by decide) statisticsRead),
      UInt64.toNat_ofNat_of_lt' (Config.number?_lt (by decide) graceRead)]
  · cases read

/-- Checks the figures and names the first that is wrong. -/
def validate (words : PipelineWords) : Except Word.Fault (Except PipelineConfig.Invalid Unit) := do
  if words.queueMebibytes < .ofNat PipelineConfig.minQueueMebibytes then
    return .error (.queueTooSmall words.queueMebibytes.toNat)
  if words.batchMebibytes = 0 then return .error (.zero "doc_batch_max_size_mb")
  if words.batchDocuments = 0 then return .error (.zero "doc_batch_max_documents")
  if words.workers = 0 then return .error (.zero "transform_threads")
  if words.sortKeyPercentage = 0 ∨ 100 < words.sortKeyPercentage then
    return .error (.percentage words.sortKeyPercentage.toNat)
  let least ← Word.mul (.ofNat PipelineConfig.minQueueBatches) words.batchMebibytes.toUInt64
  if words.queueMebibytes.toUInt64 < least then
    return .error (.queueBelowBatches words.queueMebibytes.toNat words.batchMebibytes.toNat)
  if words.statisticsSeconds = 0 then return .error (.zero "stats_interval_secs")
  return .ok ()

/-- The number of batches that the queue holds. -/
def queueCapacity (words : PipelineWords) : Except Word.Fault UInt64 :=
  Word.div words.queueMebibytes.toUInt64 (max words.batchMebibytes.toUInt64 1)

end PipelineWords

namespace Memory

/-- The working memory for a number of free mebibytes; a difference below zero counts as zero. -/
def detectedWords (free : UInt64) : UInt64 :=
  let reserved := .ofNat reservedMebibytes
  min (max (if free < reserved then 0 else free - reserved) (.ofNat minDetectedMebibytes))
    (.ofNat maxDetectedMebibytes)

/-- The working memory that a configuration sets, or else the one that fits the free memory. -/
def workingWords (configured : UInt32) (free : UInt64) : Except Word.Fault UInt64 :=
  Word.mul (if 0 < configured then configured.toUInt64 else detectedWords free) (.ofNat mebibyte)

end Memory

/-- The settings that a configuration fixes on a machine with a number of free mebibytes. -/
def Settings.resolveWords (words : PipelineWords) (free : UInt64) :
    Except Word.Fault (Except Error Settings) := do
  match ← words.validate with
  | .error invalid => return .error invalid.toError
  | .ok () =>
    let working ← Memory.workingWords words.workingMebibytes free
    match ← MemoryBudget.planWords working words.workers.toUInt64 words.sortKeyPercentage with
    | .error refusal => return .error refusal.toError
    | .ok budget =>
      let batchBytes ← Word.mul words.batchMebibytes.toUInt64 (.ofNat Memory.mebibyte)
      let queueCapacity ← words.queueCapacity
      return .ok
        { batchBytes := batchBytes.toNat
          batchDocuments := words.batchDocuments.toNat
          queueCapacity := queueCapacity.toNat
          workers := words.workers.toNat
          budget := budget
          statisticsSeconds := words.statisticsSeconds.toNat
          graceSeconds := words.graceSeconds.toNat }

namespace PipelineWords

/-- Eight batches of any size are no more mebibytes than fit in a word. -/
theorem least_gives (words : PipelineWords) :
    Word.Gives (Word.mul (.ofNat PipelineConfig.minQueueBatches) words.batchMebibytes.toUInt64)
      (PipelineConfig.minQueueBatches * words.batchMebibytes.toNat) := by
  have fits : (UInt64.ofNat PipelineConfig.minQueueBatches).toNat *
      words.batchMebibytes.toUInt64.toNat < UInt64.size := by
    calc PipelineConfig.minQueueBatches * words.batchMebibytes.toNat
        ≤ PipelineConfig.minQueueBatches * UInt32.size :=
          Nat.mul_le_mul_left _ (Nat.le_of_lt words.batchMebibytes.toNat_lt)
      _ < UInt64.size := by decide
  exact Word.mul_gives fits

/-- Checking the figures does not overflow. -/
theorem validate_eq (words : PipelineWords) : words.validate = .ok words.config.validate := by
  have zero (word : UInt32) : word = 0 ↔ word.toNat = 0 := UInt32.toNat_inj.symm
  have few : words.queueMebibytes < .ofNat PipelineConfig.minQueueMebibytes ↔
      words.config.queueMebibytes < PipelineConfig.minQueueMebibytes := UInt32.lt_iff_toNat_lt
  have outside : words.sortKeyPercentage = 0 ∨ 100 < words.sortKeyPercentage ↔
      words.config.sortKeyPercentage = 0 ∨ 100 < words.config.sortKeyPercentage :=
    or_congr (zero _) UInt32.lt_iff_toNat_lt
  obtain ⟨least, multiplied, leastIs⟩ := words.least_gives
  have below : words.queueMebibytes.toUInt64 < least ↔ words.config.queueMebibytes <
      PipelineConfig.minQueueBatches * words.config.batchMebibytes := by
    rw [UInt64.lt_iff_toNat_lt, leastIs]
    rfl
  rw [validate, multiplied]
  refine Word.ite_eq_ok few rfl ?_
  refine Word.ite_eq_ok (zero _) rfl ?_
  refine Word.ite_eq_ok (zero _) rfl ?_
  refine Word.ite_eq_ok (zero _) rfl ?_
  refine Word.ite_eq_ok outside rfl ?_
  refine Word.ite_eq_ok below rfl ?_
  exact Word.ite_eq_ok UInt64.toNat_inj.symm rfl rfl

theorem queueCapacity_gives (words : PipelineWords) :
    Word.Gives words.queueCapacity words.config.queueCapacity := by
  have divisor : (max words.batchMebibytes.toUInt64 1).toNat = max words.batchMebibytes.toNat 1 :=
    Word.toNat_max _ _
  have some : 0 < (max words.batchMebibytes.toUInt64 1).toNat := by
    rw [divisor]
    exact Nat.lt_of_lt_of_le Nat.one_pos (Nat.le_max_right _ _)
  obtain ⟨capacity, divided, capacityIs⟩ :=
    Word.div_gives (a := words.queueMebibytes.toUInt64) some
  refine ⟨capacity, divided, ?_⟩
  rw [capacityIs, divisor]
  rfl

end PipelineWords

namespace Memory

theorem toNat_detectedWords (free : UInt64) :
    (detectedWords free).toNat = detectedMebibytes free.toNat := by
  have cut : (if free < .ofNat reservedMebibytes then 0 else
      free - .ofNat reservedMebibytes).toNat = free.toNat - reservedMebibytes := by
    split
    · next less =>
      exact (Nat.sub_eq_zero_of_le (Nat.le_of_lt less)).symm
    · next enough => exact UInt64.toNat_sub_of_le _ _ (Nat.not_lt.mp enough)
  rw [detectedWords, Word.toNat_min, Word.toNat_max, cut]
  rfl

/-- Mebibytes that can be counted in 32 bits are no more bytes than fit in a word. -/
theorem mul_mebibyte_gives {count : UInt64} (few : count.toNat < UInt32.size) :
    Word.Gives (Word.mul count (.ofNat mebibyte)) (count.toNat * mebibyte) := by
  have fits : count.toNat * (UInt64.ofNat mebibyte).toNat < UInt64.size :=
    Nat.lt_of_le_of_lt (Nat.mul_le_mul_right _ (Nat.le_of_lt few)) (by decide)
  exact Word.mul_gives fits

theorem workingWords_gives (configured : UInt32) (free : UInt64) :
    Word.Gives (workingWords configured free) (workingBytes configured.toNat free.toNat) := by
  unfold workingWords workingBytes
  by_cases given : 0 < configured
  · rw [if_pos given, if_pos (show 0 < configured.toNat from given)]
    exact mul_mebibyte_gives configured.toNat_lt
  · rw [if_neg given, if_neg (show ¬ 0 < configured.toNat from given), ← toNat_detectedWords]
    refine mul_mebibyte_gives ?_
    rw [toNat_detectedWords]
    exact Nat.lt_of_le_of_lt (Nat.min_le_right _ _) (by decide)

end Memory

namespace Settings

variable {config : PipelineConfig} {free : Nat}

theorem resolve_of_invalid {invalid : PipelineConfig.Invalid}
    (found : config.validate = .error invalid) :
    resolve config free = .error invalid.toError := by
  rw [resolve, found]
  rfl

theorem resolve_of_refusal {refusal : MemoryBudget.Refusal} (valid : config.validate = .ok ())
    (refused : MemoryBudget.plan (Memory.workingBytes config.workingMebibytes free) config.workers
      config.sortKeyPercentage = .error refusal) :
    resolve config free = .error refusal.toError := by
  rw [resolve, valid, refused]
  rfl

theorem resolve_of_plan {budget : MemoryBudget} (valid : config.validate = .ok ())
    (planned : MemoryBudget.plan (Memory.workingBytes config.workingMebibytes free) config.workers
      config.sortKeyPercentage = .ok budget) :
    resolve config free = .ok
      { batchBytes := config.batchMebibytes * Memory.mebibyte
        batchDocuments := config.batchDocuments
        queueCapacity := config.queueCapacity
        workers := config.workers
        budget := budget
        statisticsSeconds := config.statisticsSeconds
        graceSeconds := config.graceSeconds } := by
  rw [resolve, valid, planned]
  rfl

/-- Nothing overflows in fixing the settings, whatever the configuration. -/
theorem resolveWords_eq (words : PipelineWords) (free : UInt64) :
    resolveWords words free = .ok (resolve words.config free.toNat) := by
  obtain ⟨working, workingFits, workingIs⟩ :=
    Memory.workingWords_gives words.workingMebibytes free
  obtain ⟨batchBytes, batchFits, batchIs⟩ :=
    Memory.mul_mebibyte_gives (Word.toNat_lt words.batchMebibytes)
  obtain ⟨capacity, capacityFits, capacityIs⟩ := words.queueCapacity_gives
  have planned := MemoryBudget.planWords_eq working words.sortKeyPercentage
    (Word.toNat_lt words.workers)
  rw [workingIs, UInt32.toNat_toUInt64] at planned
  rw [UInt32.toNat_toUInt64] at batchIs
  rw [resolveWords, Word.bind_of_ok words.validate_eq]
  cases valid : words.config.validate with
  | error invalid =>
    rw [resolve_of_invalid valid]
    rfl
  | ok =>
    dsimp only
    rw [Word.bind_of_ok workingFits, Word.bind_of_ok planned]
    cases fits : MemoryBudget.plan (Memory.workingBytes words.workingMebibytes.toNat free.toNat)
        words.workers.toNat words.sortKeyPercentage.toNat with
    | error refusal =>
      rw [resolve_of_refusal valid fits]
      rfl
    | ok budget =>
      dsimp only
      rw [resolve_of_plan valid fits, Word.bind_of_ok batchFits, Word.bind_of_ok capacityFits,
        batchIs, capacityIs]
      rfl

end Settings

end TreeExport

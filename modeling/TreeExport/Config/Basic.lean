import TreeExport.Error

/-!
# Configuration

The settings that a user may give, in three sections, with their defaults.
`PipelineConfig.validate` checks the figures of a dump one by one and against each other and names
the first that is wrong.
-/

namespace TreeExport

/-- The figures of a dump. -/
structure PipelineConfig where
  /-- The greatest size of a batch of records, in mebibytes. -/
  batchMebibytes : Nat := 4
  /-- The greatest number of records in a batch. -/
  batchDocuments : Nat := 10000
  /-- The memory for the queue of record batches, in mebibytes. -/
  queueMebibytes : Nat := 128
  /-- The number of workers. -/
  workers : Nat := 2
  /-- The memory for entries, in mebibytes; none given if zero. -/
  workingMebibytes : Nat := 0
  /-- The share of a buffer that is set aside for sort keys. -/
  sortKeyPercentage : Nat := 25
  /-- The seconds between two reports of progress. -/
  statisticsSeconds : Nat := 30
  /-- The seconds that stages have to stop once they are cancelled. -/
  graceSeconds : Nat := 30
  deriving Repr, DecidableEq

namespace PipelineConfig

/-- The least memory for the queue: it must hold the largest record. -/
def minQueueMebibytes : Nat := 16

/-- The number of batches of greatest size that the queue must hold. -/
def minQueueBatches : Nat := 8

/-- What is wrong with the figures. -/
inductive Invalid
  | queueTooSmall (mebibytes : Nat)
  | zero (key : String)
  | percentage (given : Nat)
  | queueBelowBatches (queue batch : Nat)
  deriving Repr, DecidableEq

/-- The wording of what is wrong. -/
def Invalid.message : Invalid → String
  | queueTooSmall mebibytes =>
    s!"invalid value for doc_queue_reserved_memory_mb: {mebibytes}. Must be >= {minQueueMebibytes}"
  | zero key => s!"invalid value for {key}: 0. Must be > 0"
  | percentage given =>
    s!"invalid value for sort_buffer_memory_percentage: {given}. Must be between 1 and 100"
  | queueBelowBatches queue batch =>
    s!"doc_queue_reserved_memory_mb must be at least {minQueueBatches}x doc_batch_max_size_mb, " ++
      s!"but are {queue} and {batch}, respectively"

/-- What is wrong as a failure. -/
def Invalid.toError (invalid : Invalid) : Error :=
  .config invalid.message

/-- Checks the figures and names the first that is wrong. -/
def validate (config : PipelineConfig) : Except Invalid Unit :=
  if config.queueMebibytes < minQueueMebibytes then .error (.queueTooSmall config.queueMebibytes)
  else if config.batchMebibytes = 0 then .error (.zero "doc_batch_max_size_mb")
  else if config.batchDocuments = 0 then .error (.zero "doc_batch_max_documents")
  else if config.workers = 0 then .error (.zero "transform_threads")
  else if config.sortKeyPercentage = 0 ∨ 100 < config.sortKeyPercentage then
    .error (.percentage config.sortKeyPercentage)
  else if config.queueMebibytes < minQueueBatches * config.batchMebibytes then
    .error (.queueBelowBatches config.queueMebibytes config.batchMebibytes)
  else if config.statisticsSeconds = 0 then .error (.zero "stats_interval_secs")
  else .ok ()

/-- The number of batches that the queue holds. -/
def queueCapacity (config : PipelineConfig) : Nat :=
  config.queueMebibytes / max config.batchMebibytes 1

/-- The figures as they stand in the report of a run. -/
def reportEntries (config : PipelineConfig) : List (String × String) :=
  [("pipeline.doc_batch_max_size_mb", toString config.batchMebibytes),
    ("pipeline.doc_batch_max_documents", toString config.batchDocuments),
    ("pipeline.doc_queue_reserved_memory_mb", toString config.queueMebibytes),
    ("pipeline.transform_threads", toString config.workers),
    ("pipeline.working_memory_mb", toString config.workingMebibytes),
    ("pipeline.sort_buffer_memory_percentage", toString config.sortKeyPercentage)]

end PipelineConfig

/-- Where stores are written. -/
structure StoreConfig where
  outputDirectory : String := "var/treedump"
  deriving Repr, DecidableEq

/-- Which nodes are dumped. -/
structure FiltersConfig where
  includedPaths : List String := []
  excludedPaths : List String := []
  excludeGlobs : List String := []
  deriving Repr, DecidableEq

/-- The whole configuration. -/
structure Config where
  pipeline : PipelineConfig := {}
  store : StoreConfig := {}
  filters : FiltersConfig := {}
  deriving Repr, DecidableEq

end TreeExport

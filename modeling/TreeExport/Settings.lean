import TreeExport.Config.Basic
import TreeExport.Memory
import TreeExport.Report

/-!
# Settings of a run

What a valid configuration and the memory plan fix for one run.  Only a run whose settings stand
records them in its report.
-/

namespace TreeExport

/-- The settings of a run. -/
structure Settings where
  batchBytes : Nat
  batchDocuments : Nat
  queueCapacity : Nat
  workers : Nat
  budget : MemoryBudget
  statisticsSeconds : Nat
  graceSeconds : Nat
  deriving Repr, DecidableEq

namespace Settings

/-- The settings that a configuration fixes on a machine with a number of free mebibytes. -/
def resolve (config : PipelineConfig) (free : Nat) : Except Error Settings := do
  config.validate.mapError (·.toError)
  let budget ← (MemoryBudget.plan (Memory.workingBytes config.workingMebibytes free)
    config.workers config.sortKeyPercentage).mapError (·.toError)
  pure
    { batchBytes := config.batchMebibytes * Memory.mebibyte
      batchDocuments := config.batchDocuments
      queueCapacity := config.queueCapacity
      workers := config.workers
      budget := budget
      statisticsSeconds := config.statisticsSeconds
      graceSeconds := config.graceSeconds }

/-- What a run reports of its configuration and its memory plan. -/
def reportEntries (config : PipelineConfig) (settings : Settings) : List (String × String) :=
  config.reportEntries ++
    [("pipeline.resolved_working_memory_bytes", toString settings.budget.total),
      ("pipeline.buffer_count", toString settings.budget.buffers),
      ("pipeline.buffer_size_bytes", toString settings.budget.bufferBytes),
      ("pipeline.max_entries_per_buffer", toString settings.budget.entriesPerBuffer)]

end Settings

end TreeExport

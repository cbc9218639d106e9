import TreeExport.Length
import TreeExport.Proofs.Memory
import TreeExport.Settings

/-!
# What settings guarantee

The settings that a valid configuration fixes have what a dump needs of them
(`Settings.Stands.isSized`).
-/

namespace TreeExport

/-- The settings are those of a configuration that is valid, on some machine. -/
def Settings.Stands (settings : Settings) : Prop :=
  ∃ config free, Settings.resolve config free = .ok settings

/-- What a dump needs of its settings. -/
structure Settings.IsSized (settings : Settings) : Prop where
  workers : 0 < settings.workers
  buffers : settings.budget.buffers = settings.workers + 1
  queue : 8 ≤ settings.queueCapacity
  bytes : settings.budget.bufferBytes < Length.limit
  entries : 0 < settings.budget.entriesPerBuffer

theorem PipelineConfig.queueCapacity_of_validate {config : PipelineConfig}
    (valid : config.validate = .ok ()) : 8 ≤ config.queueCapacity := by
  unfold validate at valid
  repeat' split at valid
  all_goals cases valid
  next batch _ _ _ queue _ =>
    rw [queueCapacity, Nat.max_eq_left (by omega), Nat.le_div_iff_mul_le (by omega)]
    exact Nat.not_lt.mp queue

theorem PipelineConfig.batchDocuments_of_validate {config : PipelineConfig}
    (valid : config.validate = .ok ()) : 0 < config.batchDocuments := by
  unfold validate at valid
  repeat' split at valid
  all_goals cases valid
  next documents _ _ _ _ => exact Nat.pos_of_ne_zero documents

namespace Settings

variable {settings : Settings} {config : PipelineConfig} {free : Nat}

/-- Settings are fixed by a configuration that is valid and for which there is a plan. -/
theorem of_resolve (resolved : resolve config free = .ok settings) :
    config.validate = .ok () ∧
      MemoryBudget.plan (Memory.workingBytes config.workingMebibytes free) config.workers
        config.sortKeyPercentage = .ok settings.budget ∧
      settings.workers = config.workers ∧ settings.queueCapacity = config.queueCapacity ∧
      settings.batchDocuments = config.batchDocuments := by
  unfold resolve at resolved
  cases valid : config.validate with
  | error invalid =>
    rw [valid] at resolved
    cases resolved
  | ok =>
    cases planned : MemoryBudget.plan (Memory.workingBytes config.workingMebibytes free)
        config.workers config.sortKeyPercentage with
    | error refusal =>
      rw [valid, planned] at resolved
      cases resolved
    | ok budget =>
      rw [valid, planned] at resolved
      cases resolved
      exact ⟨rfl, rfl, rfl, rfl, rfl⟩

theorem Stands.isSized (stands : settings.Stands) : settings.IsSized := by
  obtain ⟨config, free, resolved⟩ := stands
  obtain ⟨valid, planned, workers, queue, -⟩ := of_resolve resolved
  have isPlan := MemoryBudget.isPlan_of_plan planned
  rw [← workers] at isPlan
  refine ⟨isPlan.staffed, isPlan.buffers, ?_, ?_, ?_⟩
  · rw [queue]
    exact PipelineConfig.queueCapacity_of_validate valid
  · rw [isPlan.bytes]
    exact Nat.lt_of_le_of_lt (Nat.min_le_right _ _) (by decide)
  · rw [isPlan.entries]
    exact Nat.lt_of_lt_of_le Nat.one_pos (Nat.le_max_right _ _)

/-- A batch has room for a record. -/
theorem Stands.batchDocuments_pos (stands : settings.Stands) : 0 < settings.batchDocuments := by
  obtain ⟨config, free, resolved⟩ := stands
  obtain ⟨valid, -, -, -, documents⟩ := of_resolve resolved
  rw [documents]
  exact PipelineConfig.batchDocuments_of_validate valid

end Settings

end TreeExport

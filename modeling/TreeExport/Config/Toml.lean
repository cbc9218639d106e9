import TreeExport.Config.Basic
import TreeExport.Files.Program
import TreeExport.Toml.Reader
import TreeExport.Toml.Text

/-!
# Configuration files

A configuration is read from a TOML document.  What the document does not set keeps its default, and
what it sets beyond the known keys is ignored.  A section is a table, or an array with the values of
its keys in their order.
-/

namespace TreeExport

namespace Config

/-- The values that a section sets, in the order of its keys.  A date or a time sets none. -/
def sectionValues? (keys : List String) : Option Toml → Option (List (Option Toml))
  | none => some (keys.map fun _ => none)
  | some (.table fields) => some (keys.map fun key => fields.lookup key)
  | some (.array items) => some ((List.range keys.length).map fun i => items[i]?)
  | some .time => some (keys.map fun _ => none)
  | some _ => none

/-- A whole number of at most `bits` bits, or the default. -/
def number? (bits default : Nat) : Option Toml → Option Nat
  | none => some default
  | some (.integer (.ofNat n)) => if n < Nat.pow 2 bits then some n else none
  | some _ => none

/-- A text, or the default. -/
def text? (default : String) : Option Toml → Option String
  | none => some default
  | some (.string s) => some s
  | some _ => none

/-- A list of texts, or the default. -/
def texts? (default : List String) : Option Toml → Option (List String)
  | none => some default
  | some (.array items) =>
    items.mapM fun
      | .string s => some s
      | _ => none
  | some _ => none

end Config

/-- The keys of the section, in their order. -/
def PipelineConfig.keys : List String :=
  ["doc_batch_max_size_mb", "doc_batch_max_documents", "doc_queue_reserved_memory_mb",
    "transform_threads", "working_memory_mb", "sort_buffer_memory_percentage",
    "stats_interval_secs", "shutdown_grace_secs"]

/-- The figures that a section sets. -/
def PipelineConfig.ofToml? (value : Option Toml) : Option PipelineConfig := do
  match ← Config.sectionValues? keys value with
  | [size, documents, queue, workers, memory, percentage, statistics, grace] =>
    let defaults : PipelineConfig := {}
    pure
      { batchMebibytes := ← Config.number? 32 defaults.batchMebibytes size
        batchDocuments := ← Config.number? 32 defaults.batchDocuments documents
        queueMebibytes := ← Config.number? 32 defaults.queueMebibytes queue
        workers := ← Config.number? 32 defaults.workers workers
        workingMebibytes := ← Config.number? 32 defaults.workingMebibytes memory
        sortKeyPercentage := ← Config.number? 32 defaults.sortKeyPercentage percentage
        statisticsSeconds := ← Config.number? 64 defaults.statisticsSeconds statistics
        graceSeconds := ← Config.number? 64 defaults.graceSeconds grace }
  | _ => none

/-- Where stores are written, as a section sets it. -/
def StoreConfig.ofToml? (value : Option Toml) : Option StoreConfig := do
  match ← Config.sectionValues? ["output_dir"] value with
  | [directory] =>
    let defaults : StoreConfig := {}
    pure ⟨← Config.text? defaults.outputDirectory directory⟩
  | _ => none

/-- Which nodes are dumped, as a section sets it. -/
def FiltersConfig.ofToml? (value : Option Toml) : Option FiltersConfig := do
  match ← Config.sectionValues? ["included_paths", "excluded_paths", "exclude_globs"] value with
  | [included, excluded, globs] =>
    let defaults : FiltersConfig := {}
    pure
      ⟨← Config.texts? defaults.includedPaths included,
        ← Config.texts? defaults.excludedPaths excluded,
        ← Config.texts? defaults.excludeGlobs globs⟩
  | _ => none

namespace Config

/-- The configuration that a text sets. -/
def read? (text : String) : Option Config := do
  let fields ← Toml.read? text
  pure
    { pipeline := ← PipelineConfig.ofToml? (fields.lookup "pipeline")
      store := ← StoreConfig.ofToml? (fields.lookup "store")
      filters := ← FiltersConfig.ofToml? (fields.lookup "filters") }

/-- Reads a configuration from a file. -/
def load (path : String) : FileTask Config := do
  match read? (← FileTask.readText path) with
  | some config => pure config
  | none => throw (.config s!"failed to parse {path}: not a configuration")

/-- The configuration as text, with all keys. -/
def render (config : Config) : String :=
  let pipeline := config.pipeline
  "\n".intercalate
    [Toml.sectionText "pipeline"
        [("doc_batch_max_size_mb", toString pipeline.batchMebibytes),
          ("doc_batch_max_documents", toString pipeline.batchDocuments),
          ("doc_queue_reserved_memory_mb", toString pipeline.queueMebibytes),
          ("transform_threads", toString pipeline.workers),
          ("working_memory_mb", toString pipeline.workingMebibytes),
          ("sort_buffer_memory_percentage", toString pipeline.sortKeyPercentage),
          ("stats_interval_secs", toString pipeline.statisticsSeconds),
          ("shutdown_grace_secs", toString pipeline.graceSeconds)],
      Toml.sectionText "store" [("output_dir", Toml.quote config.store.outputDirectory)],
      Toml.sectionText "filters"
        [("included_paths", Toml.quoteAll config.filters.includedPaths),
          ("excluded_paths", Toml.quoteAll config.filters.excludedPaths),
          ("exclude_globs", Toml.quoteAll config.filters.excludeGlobs)]]

end Config

end TreeExport

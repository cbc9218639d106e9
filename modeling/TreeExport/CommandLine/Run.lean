import TreeExport.CommandLine.Arguments
import TreeExport.Config.Toml
import TreeExport.Decimal.Rounding
import TreeExport.Dump.Run
import TreeExport.Filter.Glob
import TreeExport.Store.Reader

/-!
# Carrying out commands

`CommandLine.run` is the whole program, from its arguments to what it prints and the code that it
exits with.  What it does to files is a `Program`.
-/

namespace TreeExport.CommandLine

/-- What the program prints before it ends, and why it fails if it does. -/
structure Outcome where
  printed : String := ""
  failure : Option String := none

/-- The line that tells the version. -/
def versionText : String := "treedump 0.1.0\n"

/-- How the program is used. -/
def helpText : String :=
  "Usage: treedump [OPTIONS] <COMMAND>\n\nCommands:\n" ++
    "  dump     Dump a JSON-lines export into a sorted store\n" ++
    "  inspect  Print the manifest and first entries of a sorted store\n" ++
    "  config   Configuration management\n" ++
    "  help     Print this message\n"

/-- The code with which the program exits when its arguments are wrong. -/
def misuseCode : Nat := 2

/-- The code with which the program exits when it fails. -/
def failureCode : Nat := 1

/-! ## Configuration -/

/-- The directory of the configuration below a home directory. -/
def configDirectory (home : Option String) : FileTask String :=
  match home with
  | some home => pure (Path.join home ".treedump")
  | none => throw (.config "could not determine home directory")

/-- The configuration file below a home directory. -/
def configPath (home : Option String) : FileTask String := do
  pure (Path.join (← configDirectory home) "treedump.toml")

/-- The configuration from the file that is named, or from the one below the home directory, or the
defaults if there is none. -/
def loadConfig (named home : Option String) : FileTask Config := do
  match named with
  | some path => Config.load path
  | none =>
    let path ← configPath home
    if ← FileTask.isThere path then Config.load path else pure {}

/-- Writes the defaults to the configuration file below the home directory. -/
def writeConfig (home : Option String) : FileTask String := do
  FileTask.makeDirectories (← configDirectory home)
  let path ← configPath home
  FileTask.write path (Utf8.encode (Config.render {}))
  pure s!"Config initialized at: {path}\n"

/-- Shows the configuration. -/
def showConfig (named home : Option String) : FileTask String := do
  pure (Config.render (← loadConfig named home) ++ "\n")

/-! ## Dumping -/

/-- The configuration with what the arguments set: figures replace figures, paths and patterns are
added. -/
def DumpArguments.apply (arguments : DumpArguments) (config : Config) : Config where
  pipeline :=
    { config.pipeline with
      batchMebibytes := arguments.batchMebibytes.getD config.pipeline.batchMebibytes
      batchDocuments := arguments.batchDocuments.getD config.pipeline.batchDocuments
      queueMebibytes := arguments.queueMebibytes.getD config.pipeline.queueMebibytes
      workers := arguments.workers.getD config.pipeline.workers
      workingMebibytes := arguments.workingMebibytes.getD config.pipeline.workingMebibytes
      sortKeyPercentage := arguments.sortKeyPercentage.getD config.pipeline.sortKeyPercentage }
  store := config.store
  filters :=
    { includedPaths := config.filters.includedPaths ++ arguments.included
      excludedPaths := config.filters.excludedPaths ++ arguments.excluded
      excludeGlobs := config.filters.excludeGlobs ++ arguments.excludedGlobs }

/-- Opens an export; a directory can be opened but not read. -/
def openExport (path : String) : FileTask JsonLines := do
  match ← FileTask.access path with
  | .file content => pure (.ofBytes path content)
  | .directory => pure (.unreadable path Fault.isDirectory.message)

/-- The path filters that a configuration sets; none if it does not narrow the dump. -/
def pathFilters (filters : FiltersConfig) : List PathFilter :=
  if filters.includedPaths.isEmpty && filters.excludedPaths.isEmpty then []
  else [⟨filters.includedPaths, filters.excludedPaths⟩]

/-- The dump that arguments and a configuration ask for, on a machine with so many free
mebibytes. -/
def prepareDump (arguments : DumpArguments) (named home : Option String) (free : Nat) :
    FileTask (Job Source) := do
  let config := arguments.apply (← loadConfig named home)
  let source ← openExport arguments.source
  let globs ← FileTask.ofExcept (GlobFilter.ofPatterns [] config.filters.excludeGlobs)
  let job ← FileTask.ofExcept (Job.ofConfig config.pipeline free (.jsonLines source)
    (arguments.out.getD config.store.outputDirectory))
  pure
    { job with
      extraction := { job.extraction with wants := globs.accepts }
      filters := pathFilters config.filters
      checkpoint := arguments.checkpoint }

/-- What is printed after a dump. -/
def dumpText (result : RunResult) : String :=
  "\n  Sorted store created successfully!\n" ++
    s!"  Path:       {result.directory}\n" ++
    s!"  Documents:  {result.downloaded}\n" ++
    s!"  Entries:    {result.stored}\n" ++
    s!"  Rejected:   {result.statistics.rejected}\n" ++
    s!"  SHA-256:    {result.manifest.digest}\n" ++
    s!"  Time:       {Decimal.onePlace result.elapsed 1000000000}s\n\n"

/-- Writes the report of a run to a file. -/
def writeReport (path : String) (report : Report) : Program (Option String) := do
  match ← (FileTask.write path (Utf8.encode report.toJson.pretty)).run with
  | .ok () => pure none
  | .error cause =>
    pure (some s!"cannot write report to '{path}': {cause.cause?.getD cause.message}")

/-- Runs a dump and writes its report if there is a place for it. -/
def runDump (arguments : DumpArguments) (job : Job Source) : Program Outcome := do
  let outcome ← job.run
  match outcome.result with
  | .error cause => pure { failure := some cause.message }
  | .ok result =>
    match arguments.report with
    | none => pure { printed := dumpText result }
    | some path =>
      match ← writeReport path outcome.report with
      | none => pure { printed := dumpText result }
      | some failure => pure { failure := some failure }

/-! ## Looking at stores -/

/-- An entry on a line. -/
def entryLine (entry : StoredEntry) : String :=
  s!"{entry.path}\t{Utf8.decodeLossy entry.data}\n"

/-- The manifest of a store that is as its manifest says, and the run of its entries. -/
def openStore (store : String) : FileTask (Manifest × FileTask Run) := do
  let reader ← Store.Reader.openAt store
  reader.verify
  pure (reader.manifest, reader.entries)

/-- Shows the manifest and the first entries of a store.  What has been printed stays when reading
fails. -/
def inspect (store : String) (limit : Nat) : Program Outcome := do
  match ← (openStore store).run with
  | .error cause => pure { failure := some cause.message }
  | .ok (manifest, entries) =>
    let top := manifest.render ++ "\n\n"
    match ← entries.run with
    | .error cause => pure { printed := top, failure := some cause.message }
    | .ok run =>
      let failure :=
        if limit ≤ run.entries.length then none
        else run.fault.map fun reason => (Error.file run.path reason).message
      pure
        { printed := top ++ String.join ((run.entries.take limit).map entryLine)
          failure := failure }

/-! ## The program -/

/-- The outcome of a task that answers with what is to be printed. -/
def printing (task : FileTask String) : Program Outcome := do
  match ← task.run with
  | .ok printed => pure { printed := printed }
  | .error cause => pure { failure := some cause.message }

/-- Carries out a command. -/
def Invocation.run (invocation : Invocation) (home : Option String) (free : Nat) :
    Program Outcome :=
  match invocation.command with
  | .writeConfig => printing (writeConfig home)
  | .showConfig => printing (showConfig invocation.config home)
  | .inspect store limit => inspect store limit
  | .dump arguments => do
    match ← (prepareDump arguments invocation.config home free).run with
    | .error cause => pure { failure := some cause.message }
    | .ok job => runDump arguments job

/-- What the program leaves behind: the code it exits with, what it prints, and the failure that it
reports. -/
structure Exit where
  code : Nat
  printed : String := ""
  failure : Option String := none
  deriving Repr

/-- The whole program. -/
def run (arguments : List String) (environment : String → Option String) (free : Nat) :
    Program Exit :=
  match Invocation.ofArguments arguments environment with
  | .error .help => pure { code := 0, printed := helpText }
  | .error .version => pure { code := 0, printed := versionText }
  | .error .misuse => pure { code := misuseCode }
  | .ok invocation => do
    let home := (environment "HOME").filter (!·.isEmpty)
    let outcome ← invocation.run home free
    pure
      { code := if outcome.failure.isSome then failureCode else 0
        printed := outcome.printed
        failure := outcome.failure }

end TreeExport.CommandLine

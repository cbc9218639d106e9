import TreeExport.CommandLine.Option

/-!
# Commands

`Invocation.ofArguments` reads the arguments of the program and the environment.  Arguments go
before the environment, and an option that every command has counts where it is given last.
-/

namespace TreeExport.CommandLine

/-- What a dump is told. -/
structure DumpArguments where
  source : String
  out : Option String := none
  batchMebibytes : Option Nat := none
  batchDocuments : Option Nat := none
  queueMebibytes : Option Nat := none
  workers : Option Nat := none
  workingMebibytes : Option Nat := none
  sortKeyPercentage : Option Nat := none
  included : List String := []
  excluded : List String := []
  excludedGlobs : List String := []
  checkpoint : Option String := none
  report : Option String := none
  deriving Repr

/-- What the program is to do. -/
inductive Command
  | dump (arguments : DumpArguments)
  /-- Show the manifest and the first entries of a store. -/
  | inspect (store : String) (limit : Nat)
  | writeConfig
  | showConfig
  deriving Repr

/-- A command, and the configuration file if one is named. -/
structure Invocation where
  config : Option String := none
  command : Command
  deriving Repr

/-- The variable of the environment that stands in for an option. -/
def variableOf (name : String) : String :=
  "TREEDUMP_" ++ String.ofList (name.toList.map fun c => if c = '-' then '_' else c.toUpper)

/-- The name of the option that names the configuration file. -/
def configName : String := "config"

/-- The options that every command has. -/
def globalFlags : List Flag :=
  [{ name := "log-format", expected := .word ["text", "json"] },
    { name := "verbose", letter := some 'v', expected := .nothing },
    { name := configName, expected := .path, standIn := some (variableOf configName) },
    { name := "help", letter := some 'h', expected := .help }]

/-- The options before a command. -/
def topLevel : Level where
  flags := { name := "version", letter := some 'V', expected := .version } :: globalFlags
  commands := ["dump", "inspect", "config", "help"]

/-- An option for a figure of the configuration. -/
def figureFlag (name : String) : Flag where
  name := name
  expected := .figure
  standIn := some (variableOf name)

/-- The options of a dump. -/
def dumpLevel : Level where
  flags :=
    [{ name := "source", expected := .path }, { name := "out", expected := .path },
      figureFlag "doc-batch-max-size-mb",
      figureFlag "doc-batch-max-documents",
      figureFlag "doc-queue-reserved-memory-mb",
      figureFlag "transform-threads",
      figureFlag "working-memory-mb",
      figureFlag "sort-buffer-memory-percentage",
      { name := "include", expected := .texts }, { name := "exclude", expected := .texts },
      { name := "exclude-glob", expected := .texts }, { name := "checkpoint", expected := .text },
      { name := "report", expected := .path }] ++ globalFlags

/-- The options of looking at a store. -/
def inspectLevel : Level where
  flags :=
    [{ name := "store", expected := .path }, { name := "limit", expected := .number 64 }] ++
      globalFlags

/-- The options and the commands of the configuration. -/
def configLevel : Level where
  flags := globalFlags
  commands := ["init", "show", "help"]

/-- The options of a command of the configuration. -/
def configActionLevel : Level where
  flags := globalFlags

/-- The variables of the environment that stand in for options. -/
def standIns : List String :=
  (topLevel.flags ++ dumpLevel.flags).filterMap (·.standIn)

namespace Given

/-- The value of an option. -/
def text? (given : Given) (name : String) : Option String :=
  given.lookup name

/-- All values of an option. -/
def texts (given : Given) (name : String) : List String :=
  (given.filter (·.1 == name)).map (·.2)

/-- The value of an option as a number. -/
def number? (given : Given) (name : String) : Option Nat :=
  (given.lookup name).bind CommandLine.number?

/-- The value of an option as a figure. -/
def figure? (given : Given) (name : String) : Option Nat :=
  (given.lookup name).bind CommandLine.figure?

end Given

/-- The arguments of a dump, if they name a source. -/
def DumpArguments.ofGiven? (given : Given) : Option DumpArguments := do
  pure
    { source := ← Given.text? given "source"
      out := Given.text? given "out"
      batchMebibytes := Given.figure? given "doc-batch-max-size-mb"
      batchDocuments := Given.figure? given "doc-batch-max-documents"
      queueMebibytes := Given.figure? given "doc-queue-reserved-memory-mb"
      workers := Given.figure? given "transform-threads"
      workingMebibytes := Given.figure? given "working-memory-mb"
      sortKeyPercentage := Given.figure? given "sort-buffer-memory-percentage"
      included := Given.texts given "include"
      excluded := Given.texts given "exclude"
      excludedGlobs := Given.texts given "exclude-glob"
      checkpoint := Given.text? given "checkpoint"
      report := Given.text? given "report" }

/-- The number of entries that are shown if nothing else is said. -/
def defaultLimit : Nat := 20

namespace Invocation

/-- Reads the arguments of a command that has no commands below it. -/
def readLast (level : Level) (arguments : List String) : Except Stop Given := do
  match ← level.read [] arguments with
  | (given, none) => pure given
  | (_, some _) => throw .misuse

/-- Asking for help on commands is answered with help if there are such commands. -/
def readHelp (commands : List String) : List String → Stop
  | [] => .help
  | [command] => if commands.contains command then .help else .misuse
  | ["config", command] =>
    if commands.contains "config" && configLevel.commands.contains command then .help else .misuse
  | _ => .misuse

/-- Reads a command of the configuration and its arguments; also what was given on the way, the last
first. -/
def readConfigAction (environment : String → Option String) (arguments : List String) :
    Except Stop (Command × List Given) := do
  let (given, named) ← configLevel.read [] arguments
  match named with
  | none => throw .misuse
  | some (name, rest) =>
    if name = "help" then throw (readHelp configLevel.commands rest)
    let last ← readLast configActionLevel rest
    discard (Level.fillIn environment last configActionLevel.flags)
    discard (Level.fillIn environment given configLevel.flags)
    pure (if name = "init" then .writeConfig else .showConfig, [last, given])

/-- Reads a command and its arguments; also what was given on the way, the last first. -/
def readCommand (environment : String → Option String) (name : String) (arguments : List String) :
    Except Stop (Command × List Given) := do
  if name = "dump" then
    let given ← readLast dumpLevel arguments
    match DumpArguments.ofGiven? (← Level.fillIn environment given dumpLevel.flags) with
    | some arguments => pure (.dump arguments, [given])
    | none => throw .misuse
  else if name = "inspect" then
    let given ← readLast inspectLevel arguments
    discard (Level.fillIn environment given inspectLevel.flags)
    match Given.text? given "store" with
    | some store =>
      pure (.inspect store ((Given.number? given "limit").getD defaultLimit), [given])
    | none => throw .misuse
  else if name = "config" then readConfigAction environment arguments
  else throw (readHelp topLevel.commands arguments)

/-- What the arguments and the environment ask for. -/
def ofArguments (arguments : List String) (environment : String → Option String) :
    Except Stop Invocation := do
  let (given, named) ← topLevel.read [] arguments
  match named with
  | none => throw .misuse
  | some (name, rest) =>
    let (command, levels) ← readCommand environment name rest
    discard (Level.fillIn environment given topLevel.flags)
    let named := (levels ++ [given]).findSome? fun level => Given.text? level configName
    pure ⟨named.or (environment (variableOf configName)), command⟩

end Invocation

end TreeExport.CommandLine

import TreeExport.Error
import TreeExport.Files.Basic
import TreeExport.Moment

/-!
# Programs over files

A `Program` is what is to be done with files, as data: a tree of single operations, each with what
is done after every answer.  `Program.run` carries it out on a file tree.  `Program.trail` lists
the trees that it passes through, which are all the trees that can be left behind by something
that stops it.  Only a `Files.Change` makes a difference to the tree.
-/

namespace TreeExport

/-- What is to be done with files. -/
inductive Program (α : Type)
  | done (value : α)
  /-- Asks what stands at a path. -/
  | look (path : String) (next : Option Kind → Program α)
  /-- Opens what stands at a path. -/
  | access (path : String) (next : Except Fault Node → Program α)
  /-- Asks for all that lies below a path, whatever lies deeper first. -/
  | survey (path : String) (next : List (String × Kind) → Program α)
  /-- Makes a change. -/
  | change (c : Files.Change) (next : Except Fault Unit → Program α)
  /-- Asks for the time. -/
  | now (next : Moment → Program α)

namespace Program

variable {α β : Type}

/-- Does one thing after the other. -/
def andThen (next : α → Program β) : Program α → Program β
  | done value => next value
  | look path k => look path fun answer => andThen next (k answer)
  | access path k => access path fun answer => andThen next (k answer)
  | survey path k => survey path fun answer => andThen next (k answer)
  | change c k => change c fun answer => andThen next (k answer)
  | now k => now fun answer => andThen next (k answer)

instance : Monad Program where
  pure := done
  bind program next := program.andThen next

/-- The kind of what stands at a path, if it can be reached. -/
def kindAt (files : Files) (path : String) : Option Kind :=
  (files.reach path).toOption.join.map Node.kind

/-- All that lies below a path, by paths. -/
def pathsBelow (files : Files) (path : String) : List (String × Kind) :=
  match files.locate path with
  | .ok place =>
    (files.below place).map fun (deeper, kind) =>
      ((deeper.drop place.length).foldl Path.join path, kind)
  | .error _ => []

/-- Carries a program out on a file tree at a time that stands still. -/
def run (time : Moment) : Program α → Files → α × Files
  | done value, files => (value, files)
  | look path k, files => run time (k (kindAt files path)) files
  | access path k, files => run time (k (files.openAt path)) files
  | survey path k, files => run time (k (pathsBelow files path)) files
  | change c k, files =>
    match files.change c with
    | .ok changed => run time (k (.ok ())) changed
    | .error fault => run time (k (.error fault)) files
  | now k, files => run time (k time) files

/-- The trees that a program passes through, from the one that it starts with to the one that it
ends with. -/
def trail (time : Moment) : Program α → Files → List Files
  | done _, files => [files]
  | look path k, files => trail time (k (kindAt files path)) files
  | access path k, files => trail time (k (files.openAt path)) files
  | survey path k, files => trail time (k (pathsBelow files path)) files
  | change c k, files =>
    match files.change c with
    | .ok changed => files :: trail time (k (.ok ())) changed
    | .error fault => trail time (k (.error fault)) files
  | now k, files => trail time (k time) files

theorem run_andThen (time : Moment) (next : α → Program β) (program : Program α)
    (files : Files) :
    (program.andThen next).run time files =
      (next (program.run time files).1).run time (program.run time files).2 := by
  induction program generalizing files with
  | done value => rfl
  | look path k ih => exact ih _ files
  | access path k ih => exact ih _ files
  | survey path k ih => exact ih _ files
  | change c k ih =>
    simp only [andThen, run]
    cases files.change c with
    | ok changed => exact ih _ changed
    | error fault => exact ih _ files
  | now k ih => exact ih _ files

end Program

/-- A program that may fail. -/
abbrev FileTask := ExceptT Error Program

namespace FileTask

variable {α : Type}

/-- A result that is there already. -/
def ofExcept (result : Except Error α) : FileTask α :=
  ExceptT.mk (.done result)

/-- A failure at a path. -/
def failure (path : String) (fault : Fault) : Error :=
  .file path fault.message

/-- The kind of what stands at a path. -/
def look (path : String) : FileTask (Option Kind) :=
  ExceptT.mk (.look path fun answer => .done (.ok answer))

/-- Opens what stands at a path. -/
def access (path : String) : FileTask Node :=
  ExceptT.mk (.access path fun answer => .done (answer.mapError (failure path)))

/-- All that lies below a path, whatever lies deeper first. -/
def survey (path : String) : FileTask (List (String × Kind)) :=
  ExceptT.mk (.survey path fun answer => .done (.ok answer))

/-- Makes a change; a failure is reported at `path`. -/
def change (path : String) (c : Files.Change) : FileTask Unit :=
  ExceptT.mk (.change c fun answer => .done (answer.mapError (failure path)))

/-- The time. -/
def now : FileTask Moment :=
  ExceptT.mk (.now fun time => .done (.ok time))

/-- Something stands at a path. -/
def isThere (path : String) : FileTask Bool := do
  pure (← look path).isSome

/-- A file stands at a path. -/
def isFile (path : String) : FileTask Bool := do
  pure ((← look path) == some .file)

/-- The bytes of a file. -/
def readBytes (path : String) : FileTask Bytes := do
  match ← access path with
  | .file content => pure content
  | .directory => throw (failure path .isDirectory)

/-- The text of a file. -/
def readText (path : String) : FileTask String := do
  match Utf8.decode (← readBytes path) with
  | .ok text => pure text
  | .error _ => throw (.file path "stream did not contain valid UTF-8")

/-- Writes a whole file. -/
def write (path : String) (content : Bytes) : FileTask Unit := do
  change path (.create path)
  change path (.extend path content)

/-- Removes what a survey listed; failures are reported at `root`. -/
def removeListed (root : String) : List (String × Kind) → FileTask Unit
  | [] => pure ()
  | (path, .file) :: rest => do
    change root (.removeFile path)
    removeListed root rest
  | (path, .directory) :: rest => do
    change root (.removeDirectory path)
    removeListed root rest

/-- Removes a directory and all that lies below it. -/
def removeTree (path : String) : FileTask Unit := do
  match ← look path with
  | some .file => throw (failure path .notDirectory)
  | none => throw (failure path .notFound)
  | some .directory =>
    removeListed path (← survey path)
    change path (.removeDirectory path)

/-- Makes a change; a failure is an answer. -/
def attempt (c : Files.Change) : FileTask (Option Fault) :=
  ExceptT.mk (.change c fun answer =>
    .done (.ok (match answer with | .ok () => none | .error fault => some fault)))

/-- Passes over a failure to make a directory that is there; others are reported at `target`. -/
def settle (target path : String) : Option Fault → FileTask Unit
  | none => pure ()
  | some fault => do
    if (← look path) ≠ some .directory then throw (failure target fault)

/-- Makes the first of some directories, and those around it if they are missing; failures are
reported at `target`. -/
def makeOutward (target : String) : List String → FileTask Unit
  | [] => pure ()
  | path :: around => do
    match ← attempt (.makeDirectory path) with
    | some .notFound => do
      makeOutward target around
      settle target path (← attempt (.makeDirectory path))
    | answer => settle target path answer

/-- Makes a directory and those around it that are missing. -/
def makeDirectories (path : String) : FileTask Unit := do
  if !path.isEmpty then makeOutward path (Path.outward path)

/-- Carries out a task on a file tree at a time that stands still. -/
def runOn (time : Moment) (task : FileTask α) (files : Files) : Except Error α × Files :=
  Program.run time task.run files

end FileTask

end TreeExport

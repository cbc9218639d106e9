import Std.Time.DateTime.Timestamp
import TreeExport.CommandLine.Run

/-!
# The program on a real machine

A `Program` is carried out on the files of the machine, one operation at a time.  Nothing is decided
here.
-/

namespace TreeExport

/-- The number of a failure of the system, which some operations tell with a minus. -/
def systemNumber (code : UInt32) : Nat :=
  if code < 0x80000000 then code.toNat else (0 - code).toNat

/-- The fault that a failure of the system is. -/
def Fault.ofSystem (failure : IO.Error) : Fault :=
  match failure with
  | .noFileOrDirectory .. => .notFound
  | .alreadyExists .. => .alreadyThere
  | .inappropriateType _ code _ =>
    if systemNumber code = 20 then .notDirectory
    else if systemNumber code = 21 then .isDirectory
    else .other (toString failure)
  | .invalidArgument _ code _ =>
    if systemNumber code = 36 then .tooLong else .other (toString failure)
  | .unsatisfiedConstraints code _ =>
    if systemNumber code = 39 then .notEmpty else .other (toString failure)
  | _ => .other (toString failure)

namespace Machine

/-- What comes of an operation. -/
def attempt {α : Type} (operation : IO α) : IO (Except Fault α) := do
  match ← operation.toBaseIO with
  | .ok value => pure (.ok value)
  | .error failure => pure (.error (.ofSystem failure))

/-- A place as an entry of the directory that holds it. -/
def entryAt (path : String) : IO.FS.DirEntry where
  root := path
  fileName := ""

/-- The kind of what stands at a path. -/
def kindAt (path : String) : IO (Option Kind) := do
  match ← attempt (entryAt path).root.metadata with
  | .ok data => pure (some (if data.type == .dir then .directory else .file))
  | .error _ => pure none

/-- Opens what stands at a path. -/
def openAt (path : String) : IO (Except Fault Node) := do
  match ← kindAt path with
  | some .directory => pure (.ok .directory)
  | _ =>
    match ← attempt (IO.FS.readBinFile path) with
    | .ok content => pure (.ok (.file content.toList))
    | .error fault => pure (.error fault)

/-- All that lies below a path, whatever lies deeper first; `depth` bounds how deep. -/
def listBelow : Nat → String → IO (List (String × Kind))
  | 0, _ => pure []
  | depth + 1, path => do
    let mut found := []
    for entry in ← (entryAt path).root.readDir do
      let deeper := Path.join path entry.fileName
      match ← kindAt deeper with
      | some .directory => found := found ++ (← listBelow depth deeper) ++ [(deeper, .directory)]
      | some .file => found := found ++ [(deeper, .file)]
      | none => pure ()
    pure found

/-- Makes a change. -/
def makeChange : Files.Change → IO Unit
  | .create path => IO.FS.writeBinFile path ByteArray.empty
  | .extend path bytes =>
    IO.FS.withFile path .append fun handle => handle.write ⟨bytes.toArray⟩
  | .rename path target => IO.FS.rename path target
  | .removeFile path => IO.FS.removeFile path
  | .removeDirectory path => IO.FS.removeDir path
  | .makeDirectory path => IO.FS.createDir path

/-- The time. -/
def now : IO Moment := do
  let nanoseconds := (← Std.Time.Timestamp.now).toNanosecondsSinceUnixEpoch.val
  pure ⟨nanoseconds.fdiv 1000000000, (nanoseconds.fmod 1000000000).toNat⟩

/-- The greatest depth of directories that is looked into. -/
def maxDepth : Nat := 1000

/-- Carries out a program. -/
def run {α : Type} : Program α → IO α
  | .done value => pure value
  | .look path next => do run (next (← kindAt path))
  | .access path next => do run (next (← openAt path))
  | .survey path next => do
    match ← attempt (listBelow maxDepth path) with
    | .ok found => run (next found)
    | .error _ => run (next [])
  | .change c next => do run (next (← attempt (makeChange c)))
  | .now next => do run (next (← now))

/-- The mebibytes of memory that a line of the system's account says are available. -/
def availableOfLine? (line : String) : Option Nat :=
  match (line.splitOn " ").filter (!·.isEmpty) with
  | ["MemAvailable:", kibibytes, "kB"] => kibibytes.toNat?.map (· / 1024)
  | _ => none

/-- The mebibytes of memory that are available; none are if the system gives no account. -/
def availableMebibytes : IO Nat := do
  match ← attempt (IO.FS.readFile "/proc/meminfo") with
  | .ok account => pure (((account.splitOn "\n").findSome? availableOfLine?).getD 0)
  | .error _ => pure 0

end Machine

end TreeExport

open TreeExport in
/-- Reads the arguments, carries out the command, prints, and exits. -/
def main (arguments : List String) : IO UInt32 := do
  let mut environment : List (String × String) := []
  for name in "HOME" :: CommandLine.standIns do
    match ← IO.getEnv name with
    | some value => environment := (name, value) :: environment
    | none => pure ()
  let program :=
    CommandLine.run arguments (fun name => environment.lookup name) (← Machine.availableMebibytes)
  let exit ← Machine.run program
  IO.print exit.printed
  match exit.failure with
  | some failure => IO.eprintln s!"Error: {failure}"
  | none => pure ()
  pure (UInt32.ofNat exit.code)

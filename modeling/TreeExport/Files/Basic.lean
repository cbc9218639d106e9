import TreeExport.Files.Path
import TreeExport.Text.Utf8

/-!
# File trees

A tree of directories and files, listed by location.  A path is walked step by step from the
working directory, or from the root if it begins with a slash, through directories only.  Each
`Change` is one operation of a file system; it either changes the tree or fails and leaves it as it
was.
-/

namespace TreeExport

/-- The names on the way from the root to a place in a tree. -/
abbrev Location := List String

/-- What stands at a place. -/
inductive Node
  | file (content : Bytes)
  | directory
  deriving Repr, DecidableEq

/-- The kinds of what stands at a place. -/
inductive Kind
  | file
  | directory
  deriving Repr, DecidableEq

/-- The kind of a node. -/
def Node.kind : Node → Kind
  | file _ => .file
  | directory => .directory

/-- Why a file operation fails. -/
inductive Fault
  | notFound
  | alreadyThere
  | notDirectory
  | isDirectory
  | notEmpty
  /-- A name or a whole path is too long. -/
  | tooLong
  /-- A path holds the character that ends a path. -/
  | cutShort
  /-- A failure of some other kind, in the words of the system. -/
  | other (reason : String)
  deriving Repr, DecidableEq

/-- The wording of a failure. -/
def Fault.message : Fault → String
  | notFound => "No such file or directory (os error 2)"
  | alreadyThere => "File exists (os error 17)"
  | notDirectory => "Not a directory (os error 20)"
  | isDirectory => "Is a directory (os error 21)"
  | notEmpty => "Directory not empty (os error 39)"
  | tooLong => "File name too long (os error 36)"
  | cutShort => "file name contained an unexpected NUL byte"
  | other reason => reason

namespace Path

/-- The greatest number of bytes of a name. -/
def maxNameBytes : Nat := 255

/-- The greatest number of bytes of a path. -/
def maxBytes : Nat := 4095

/-- Why a path leads nowhere in any tree. -/
def fault? (path : String) : Option Fault :=
  if path.toList.contains '\x00' then some .cutShort
  else if path.isEmpty then some .notFound
  else if maxBytes < path.utf8ByteSize then some .tooLong
  else none

end Path

/-- A file tree: what stands at each place, and the working directory.  The working directory and
those around it are always there. -/
structure Files where
  entries : List (Location × Node) := []
  working : Location := []
  deriving Repr, DecidableEq

namespace Files

/-- What stands at a place. -/
def get? (files : Files) (place : Location) : Option Node :=
  if place.isPrefixOf files.working then some .directory else files.entries.lookup place

/-- The tree without what stands at a place. -/
def erase (files : Files) (place : Location) : Files :=
  { files with entries := files.entries.filter fun entry => entry.1 != place }

/-- The tree with something at a place. -/
def put (files : Files) (place : Location) (node : Node) : Files :=
  { files with entries := (place, node) :: (files.erase place).entries }

/-! ## Ways -/

/-- Walks on from a place by steps, each of which starts in a directory.  The last of them may lead
to a place where nothing stands. -/
def walk (files : Files) (place : Location) : List Path.Step → Except Fault Location
  | [] => .ok place
  | step :: way =>
    match files.get? place with
    | some .directory =>
      match step with
      | .stay => files.walk place way
      | .up => files.walk place.dropLast way
      | .enter name =>
        if Path.maxNameBytes < name.utf8ByteSize then .error .tooLong
        else files.walk (place ++ [name]) way
    | some (.file _) => .error .notDirectory
    | none => .error .notFound

/-- Walks by steps from where a path starts. -/
def follow (files : Files) (path : String) (way : List Path.Step) : Except Fault Location :=
  match Path.fault? path with
  | some fault => .error fault
  | none => files.walk (if Path.isRooted path then [] else files.working) way

/-- The place that a path leads to. -/
def locate (files : Files) (path : String) : Except Fault Location :=
  files.follow path (Path.steps path)

/-- The place that the last name of a path gives, whatever slashes follow it; `dots` is what is
wrong with a path that does not end with a name. -/
def named (files : Files) (path : String) (dots : Fault) : Except Fault Location := do
  let way := Path.stepsToName path
  let place ← files.follow path way
  match way.getLast? with
  | some (.enter _) => .ok place
  | _ => .error dots

/-- What stands where a path leads. -/
def reach (files : Files) (path : String) : Except Fault (Option Node) := do
  pure (files.get? (← files.locate path))

/-- What can be opened at a path. -/
def openAt (files : Files) (path : String) : Except Fault Node := do
  match ← files.reach path with
  | some node => .ok node
  | none => .error .notFound

/-- All that lies below a place, whatever lies deeper first. -/
def below (files : Files) (place : Location) : List (Location × Kind) :=
  ((files.entries.filter fun entry => place.isPrefixOf entry.1 && entry.1 != place).map
    fun entry => (entry.1, entry.2.kind)).mergeSort fun a b => b.1.length ≤ a.1.length

/-! ## Changes -/

/-- One operation that changes a tree. -/
inductive Change
  /-- An empty file, new or in place of one that was there. -/
  | create (path : String)
  /-- Bytes at the end of a file. -/
  | extend (path : String) (bytes : Bytes)
  /-- A file under another name, in place of a file that was there. -/
  | rename (path target : String)
  | removeFile (path : String)
  /-- Removes a directory that is empty. -/
  | removeDirectory (path : String)
  | makeDirectory (path : String)
  deriving Repr, DecidableEq

/-- Creates a file.  A path that names a directory does so whether or not anything is there. -/
def create (files : Files) (path : String) : Except Fault Files := do
  let place ← files.named path .isDirectory
  if Path.endsWithSlash path then .error .isDirectory
  else
    match files.get? place with
    | some .directory => .error .isDirectory
    | _ => .ok (files.put place (.file []))

/-- Extends a file. -/
def extend (files : Files) (path : String) (bytes : Bytes) : Except Fault Files := do
  let place ← files.locate path
  match files.get? place with
  | some (.file content) => .ok (files.put place (.file (content ++ bytes)))
  | some .directory => .error .isDirectory
  | none => .error .notFound

/-- The place of a file that can be taken away. -/
def fileAt (files : Files) (path : String) (dots : Fault) : Except Fault (Location × Bytes) := do
  let place ← files.named path dots
  match files.get? place with
  | some (.file content) =>
    if Path.endsWithSlash path then .error .notDirectory else .ok (place, content)
  | some .directory => .error .isDirectory
  | none => .error .notFound

/-- The wording for a directory that cannot be renamed or removed because it is in use. -/
def busy : Fault := .other "Device or resource busy (os error 16)"

/-- Renames a file. -/
def rename (files : Files) (path target : String) : Except Fault Files := do
  let (place, content) ← files.fileAt path busy
  let aim ← files.named target busy
  match files.get? aim with
  | some .directory => .error .isDirectory
  | _ =>
    if Path.endsWithSlash target then .error .notDirectory
    else .ok ((files.erase place).put aim (.file content))

/-- Removes a file. -/
def removeFile (files : Files) (path : String) : Except Fault Files := do
  let (place, _) ← files.fileAt path .isDirectory
  pure (files.erase place)

/-- Removes a directory. -/
def removeDirectory (files : Files) (path : String) : Except Fault Files := do
  let place ← files.named path busy
  match files.get? place with
  | some .directory =>
    if !(files.below place).isEmpty then .error .notEmpty
    else if place.isPrefixOf files.working then .error busy
    else .ok (files.erase place)
  | some (.file _) => .error .notDirectory
  | none => .error .notFound

/-- Makes a directory. -/
def makeDirectory (files : Files) (path : String) : Except Fault Files := do
  let place ← files.named path .alreadyThere
  match files.get? place with
  | none => .ok (files.put place .directory)
  | some _ => .error .alreadyThere

/-- The tree after a change. -/
def change (files : Files) : Change → Except Fault Files
  | .create path => files.create path
  | .extend path bytes => files.extend path bytes
  | .rename path target => files.rename path target
  | .removeFile path => files.removeFile path
  | .removeDirectory path => files.removeDirectory path
  | .makeDirectory path => files.makeDirectory path

end Files

end TreeExport

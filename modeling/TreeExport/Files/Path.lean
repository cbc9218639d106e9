import TreeExport.Path

/-!
# Paths of files

A path of a file system is read as steps, one for each piece between slashes.  Nothing is taken
back before it has been gone through: two dots lead out of a directory that is there.
-/

namespace TreeExport

namespace Path

/-! ## Joining -/

/-- The path of a name in a directory. -/
def join (directory name : String) : String :=
  if directory.isEmpty then name
  else if directory.toList.getLast? = some '/' then directory ++ name
  else s!"{directory}/{name}"

/-! ## Steps -/

/-- One step of a path. -/
inductive Step
  /-- Stays in a directory. -/
  | stay
  /-- Goes to the directory around. -/
  | up
  /-- Goes to what has a name in a directory. -/
  | enter (name : String)
  deriving Repr, DecidableEq

/-- The step that a piece of a path stands for. -/
def Step.ofPiece (piece : List Char) : Step :=
  if piece = [] ∨ piece = ['.'] then .stay
  else if piece = ['.', '.'] then .up
  else .enter (String.ofList piece)

/-- The steps of a path.  A slash at its end is a step too, which stays in a directory. -/
def steps (path : String) : List Step :=
  (splitAtEach '/' path.toList).map Step.ofPiece

/-- The path ends with a slash, and so names a directory. -/
def endsWithSlash (path : String) : Bool :=
  path.toList.getLast? == some '/'

/-- The steps of a path but for the slashes at its end. -/
def stepsToName (path : String) : List Step :=
  (splitAtEach '/' (path.toList.reverse.dropWhile (· == '/')).reverse).map Step.ofPiece

/-! ## Outward -/

/-- A path, and then from the inside outwards the paths of the directories that its names lie
in. -/
def outward (path : String) : List String :=
  let pieces := splitAtEach '/' path.toList
  let named := (List.range pieces.length).filter fun n =>
    (pieces[n]?).any fun piece => piece ≠ [] ∧ piece ≠ ['.']
  path :: named.dropLast.reverse.map fun n =>
    String.ofList (List.intercalate ['/'] (pieces.take (n + 1)))

end Path

end TreeExport

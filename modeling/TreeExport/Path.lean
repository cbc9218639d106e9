/-!
# Paths of nodes

A path is read as the list of its elements: the stretches of text between slashes, without the
empty ones.  Depth, ancestors and hiding are notions on that list; slashes at the end or next to
each other make no difference to the first two.
-/

namespace TreeExport

/-- The stretches of text between separators, one more than there are separators. -/
def splitAtEach (separator : Char) : List Char → List (List Char)
  | [] => [[]]
  | c :: rest =>
    if c = separator then [] :: splitAtEach separator rest
    else
      match splitAtEach separator rest with
      | [] => [[c]]
      | first :: more => (c :: first) :: more

namespace Path

/-- The elements of a path. -/
def elements (path : String) : List (List Char) :=
  (splitAtEach '/' path.toList).filter (!·.isEmpty)

/-- The path with given elements; the root if there are none. -/
def ofElements (elements : List (List Char)) : String :=
  if elements.isEmpty then "/" else String.ofList (elements.flatMap ('/' :: ·))

/-- The number of elements of a path. -/
def depth (path : String) : Nat :=
  (elements path).length

/-- The path of the ancestor at a depth, or of the node itself if it lies higher. -/
def ancestor (path : String) (depth : Nat) : String :=
  ofElements ((elements path).take depth)

/-- An element of the path begins with a colon, which hides the node. -/
def isHidden (path : String) : Bool :=
  (splitAtEach '/' path.toList).any (·.head? == some ':')

/-- The path begins with a slash. -/
def isRooted (path : String) : Bool :=
  path.toList.head? == some '/'

/-- The path is the one that its elements spell. -/
def IsNormal (path : String) : Prop :=
  path = ofElements (elements path)

end Path

end TreeExport

import TreeExport.Path

/-!
# Subtrees

A `PathFilter` narrows a dump to subtrees: a path must lie in none of the excluded ones and, if
there are any, in one of the included ones.  A root means its node and all that lies below it;
slashes at its end make no difference, and the root that is nothing else means everything.
-/

namespace TreeExport

namespace Path

/-- The root without the slashes at its end. -/
def trimEnd (root : List Char) : List Char :=
  (root.reverse.dropWhile (· == '/')).reverse

/-- The path is the root or lies below it. -/
def inSubtree (root path : String) : Bool :=
  let root := trimEnd root.toList
  if root.isEmpty then true
  else
    match root.isPrefixOf? path.toList with
    | some rest => rest.isEmpty || rest.head? == some '/'
    | none => false

end Path

/-- Which subtrees are dumped. -/
structure PathFilter where
  included : List String := []
  excluded : List String := []
  deriving Repr, DecidableEq

/-- The filter lets a path through. -/
def PathFilter.accepts (filter : PathFilter) (path : String) : Bool :=
  !filter.excluded.any (Path.inSubtree · path) &&
    (filter.included.isEmpty || filter.included.any (Path.inSubtree · path))

end TreeExport

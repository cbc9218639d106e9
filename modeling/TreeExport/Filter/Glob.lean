import TreeExport.Error
import TreeExport.Filter.Regex
import TreeExport.Text.Replace

/-!
# Glob patterns

A pattern is made into a regular expression: it is escaped, and then two stars, one star and a question
mark, each of which has got a backslash, are replaced in this order by what stands for any text without
a new line, any text without a slash, and one character.  A path is matched as a whole.  Patterns that
the library for regular expressions does not compile are refused before they are used.
-/

namespace TreeExport

namespace Glob

/-- The regular expression for a pattern that has been escaped. -/
def expression (escaped : String) : String :=
  let anyText := Text.replaceAll ['\\', '*', '\\', '*'] ['.', '*'] escaped.toList
  let anyElement := Text.replaceAll ['\\', '*'] ['[', '^', '/', ']', '*'] anyText
  let one := Text.replaceAll ['\\', '?'] ['.'] anyElement
  String.ofList ('^' :: (one ++ ['$']))

/-- What the library makes of a pattern. -/
def compile (library : Regex.Library) (pattern : String) : Option library.Compiled :=
  library.compile (expression (library.escape pattern))

/-- What the library makes of some patterns, unless it refuses one of them. -/
def compileAll (library : Regex.Library) (patterns : List String) :
    Except Error (List library.Compiled) :=
  patterns.mapM fun pattern =>
    match compile library pattern with
    | some compiled => .ok compiled
    | none => .error (.config s!"invalid path glob '{pattern}'")

end Glob

/-- Which paths are kept: those that match no excluded pattern and, if any patterns are included,
one of them. -/
structure GlobPredicate (library : Regex.Library) where
  included : List library.Compiled := []
  excluded : List library.Compiled := []

namespace GlobPredicate

variable {library : Regex.Library}

/-- The predicate of given patterns, unless one of them is refused. -/
def ofPatterns (library : Regex.Library) (included excluded : List String) :
    Except Error (GlobPredicate library) := do
  pure ⟨← Glob.compileAll library included, ← Glob.compileAll library excluded⟩

/-- The predicate keeps a path. -/
def accepts (predicate : GlobPredicate library) (path : String) : Bool :=
  if predicate.excluded.any (library.isMatch · path) then false
  else predicate.included.isEmpty || predicate.included.any (library.isMatch · path)

end GlobPredicate

/-- Predicates over the patterns of the library at hand. -/
abbrev GlobFilter := GlobPredicate Regex.library

/-- The filter with given patterns, unless one of them is refused. -/
def GlobFilter.ofPatterns (included excluded : List String) : Except Error GlobFilter :=
  GlobPredicate.ofPatterns Regex.library included excluded

end TreeExport

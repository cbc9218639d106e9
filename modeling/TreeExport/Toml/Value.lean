/-!
# TOML values

A `Toml` is what a TOML document means.  The values of fractions and of dates and times are left
out: nothing that is read from such documents here asks for them.
-/

namespace TreeExport

/-- A TOML value. -/
inductive Toml
  | string (s : String)
  | integer (i : Int)
  | fraction
  | boolean (b : Bool)
  | time
  | array (items : List Toml)
  | table (fields : List (String × Toml))
  deriving Repr, Inhabited

end TreeExport

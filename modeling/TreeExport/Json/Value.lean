import TreeExport.Decimal.Binary64
import TreeExport.Keyed

/-!
# JSON values

A `Json` is what a document means: numbers are whole or binary fractions, and the fields of an
object stand under distinct keys in key order.
-/

namespace TreeExport

/-- A JSON number: whole if it was written as a whole number that fits in 64 bits, else a binary
fraction. -/
inductive Json.Number
  | whole (i : Int)
  | fraction (x : Decimal.Binary64)
  deriving Repr, DecidableEq

/-- A JSON value. -/
inductive Json
  | null
  | bool (b : Bool)
  | number (n : Json.Number)
  | string (s : String)
  | array (items : List Json)
  | object (fields : List (String × Json))
  deriving Repr, Inhabited

end TreeExport

import TreeExport.Json.Value

/-!
# Looking into JSON values

What is looked for and is not there, or is something else, is nothing: null, no text, no items.
-/

namespace TreeExport.Json

/-- The fields of an object. -/
def fields : Json → List (String × Json)
  | object fields => fields
  | _ => []

/-- The value of a field. -/
def field (name : String) (value : Json) : Json :=
  (value.fields.lookup name).getD null

/-- The text that a value is. -/
def text? : Json → Option String
  | string s => some s
  | _ => none

/-- The whole number that a value is, if it is not negative. -/
def nat? : Json → Option Nat
  | number (.whole (.ofNat n)) => some n
  | _ => none

/-- The items of an array. -/
def items : Json → List Json
  | array items => items
  | _ => []

/-- The value is true. -/
def isTrue : Json → Bool
  | bool b => b
  | _ => false

/-- The text of a field, or the empty text. -/
def textAt (name : String) (value : Json) : String :=
  (value.field name).text?.getD ""

/-- The texts of a field that is an array of texts. -/
def textsAt (name : String) (value : Json) : List String :=
  (value.field name).items.filterMap text?

/-- The number of a field, or zero. -/
def natAt (name : String) (value : Json) : Nat :=
  (value.field name).nat?.getD 0

/-- The items of a field that is an array. -/
def itemsAt (name : String) (value : Json) : List Json :=
  (value.field name).items

/-- The field is true. -/
def isTrueAt (name : String) (value : Json) : Bool :=
  (value.field name).isTrue

end TreeExport.Json

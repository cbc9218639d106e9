import TreeExport.Json.Reader
import TreeExport.Record.Basic

/-!
# Reading records

A record is read from a JSON object.  The three fields that every record may have are typed and
may stand only once; of any other field that is repeated the last value counts.
-/

namespace TreeExport.Record

/-- The fields read so far, each of the typed ones only if it has been seen. -/
structure Draft where
  id : Option String := none
  path : Option (Option String) := none
  deleted : Option Bool := none
  fields : List (String × Json) := []

/-- Takes up one more field of the object. -/
def Draft.add? (draft : Draft) (key : String) (value : Json.Written) : Option Draft :=
  if key = "_id" then
    match draft.id, value with
    | none, .text pieces => do
      let id ← Json.Piece.text? pieces
      pure { draft with id := some id }
    | _, _ => none
  else if key = "_path" then
    match draft.path, value with
    | none, .null => some { draft with path := some none }
    | none, .text pieces => do
      let path ← Json.Piece.text? pieces
      pure { draft with path := some (some path) }
    | _, _ => none
  else if key = "_deleted" then
    match draft.deleted, value with
    | none, .bool b => some { draft with deleted := some b }
    | _, _ => none
  else do
    let json ← value.valueAt? 1
    pure { draft with fields := Keyed.insert key json draft.fields }

/-- Takes up fields in turn. -/
def Draft.addAll? (draft : Draft) : List (List Json.Piece × Json.Written) → Option Draft
  | [] => some draft
  | (name, value) :: rest => do
    let key ← Json.Piece.text? name
    let next ← draft.add? key value
    next.addAll? rest

/-- The record, if it has an id. -/
def Draft.finish? (draft : Draft) : Option Record :=
  draft.id.map fun id => ⟨id, draft.path.join, draft.deleted.getD false, draft.fields⟩

/-- The record that a text spells. -/
def read? (text : String) : Option Record := do
  match ← Json.Written.read? text with
  | .object fields => (Draft.addAll? {} fields).bind Draft.finish?
  | _ => none

end TreeExport.Record

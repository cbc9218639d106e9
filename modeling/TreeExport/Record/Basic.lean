import TreeExport.Error
import TreeExport.Json.Text
import TreeExport.Path
import TreeExport.Total

/-!
# Records

A record is one document of the store that is dumped.  Its id is a depth, a colon and a place:
the path of a node, a part of a split document, or a hash, in which case the path is a field of
its own.  `Record.locate` reads the place.
-/

namespace TreeExport

/-- A record: id, path field, deletion mark, and all other fields in key order. -/
structure Record where
  id : String
  path : Option String
  deleted : Bool
  fields : List (String × Json)
  deriving Repr

namespace Record

/-- What a record holds. -/
inductive Place
  /-- The node at a path. -/
  | node (path : String)
  /-- A part of a document that is split over several records. -/
  | split
  deriving Repr, DecidableEq

/-- Why an id names no place. -/
inductive IdFault
  | malformed (id : String)
  | missingDepth (id : String)
  | missingPath (id : String)
  deriving Repr, DecidableEq

/-- The wording of a fault. -/
def IdFault.message : IdFault → String
  | malformed id => s!"malformed record id '{id}'"
  | missingDepth id => s!"malformed record id '{id}': missing depth"
  | missingPath id => s!"record '{id}' has a hashed id but no valid _path"

/-- The fault as a failure. -/
def IdFault.toError (fault : IdFault) : Error :=
  .validation fault.message

/-- A record of the node at a path. -/
def node (path : String) (fields : List (String × Json)) : Record where
  id := s!"{Path.depth path}:{path}"
  path := none
  deleted := false
  fields := fields

/-- The depth and the place of an id, if it has a colon. -/
def idParts? (id : List Char) : Option (List Char × List Char) :=
  match id.dropWhile (· != ':') with
  | [] => none
  | _ :: place => some (id.takeWhile (· != ':'), place)

/-- Where a record belongs.  A hashed id needs a path field that begins with a slash. -/
def locate (record : Record) : Except IdFault Place :=
  match idParts? record.id.toList with
  | none => .error (.malformed record.id)
  | some (depth, place) =>
    if depth.isEmpty || !depth.all (·.isDigit) then .error (.missingDepth record.id)
    else
      match place with
      | '/' :: _ => .ok (.node (String.ofList place))
      | 'p' :: '/' :: _ => .ok .split
      | 'h' :: _ =>
        match record.path with
        | some path =>
          if Path.isRooted path then .ok (.node path) else .error (.missingPath record.id)
        | none => .error (.missingPath record.id)
      | _ => .error (.malformed record.id)

/-- The bytes of ids, keys, and values as JSON text, a measure of the memory that a record
takes. -/
def approximateSize (record : Record) : Nat :=
  Utf8.size record.id + (record.path.map Utf8.size).getD 0 +
    total (record.fields.map fun (key, value) => Utf8.size key + Utf8.size value.compact)

/-- The record as a JSON object: the id, the path if there is one, the deletion mark if it is
set, then the other fields. -/
def toJson (record : Record) : Json :=
  .object (("_id", .string record.id) ::
    ((record.path.map fun path => ("_path", .string path)).toList ++
      ((if record.deleted then [("_deleted", .bool true)] else []) ++ record.fields)))

end Record

end TreeExport

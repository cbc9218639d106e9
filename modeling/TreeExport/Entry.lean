import TreeExport.Error
import TreeExport.Json.Text

/-!
# Entries

An entry is what the store keeps of a node: its path and its own properties as a JSON object.  On
its way to the store it is one payload, path and JSON with a bar between them, so a path may hold
no bar.  A property that refers to a blob is replaced by the blob's id.
-/

namespace TreeExport

/-- Finds the id of the blob that a reference names. -/
abbrev BlobResolver := String → Except Error String

namespace BlobResolver

/-- Takes the reference for the id. -/
def passthrough : BlobResolver := .ok

/-- Looks the reference up in a list. -/
def ofTable (table : List (String × String)) : BlobResolver := fun reference =>
  match table.lookup reference with
  | some id => .ok id
  | none => .error (.validation s!"unknown blob '{reference}'")

end BlobResolver

namespace Entry

/-- The only key of an object that refers to a blob. -/
def referenceKey : String := "$blob"

/-- What stands before the id of a blob. -/
def blobMark : String := ":blobId:"

/-- The byte between path and JSON. -/
def delimiter : UInt8 := 0x7C

mutual

/-- Replaces blob references, looking into arrays but not into objects. -/
def resolve (blobs : BlobResolver) : Json → Except Error Json
  | .object [(key, .string reference)] =>
    if key = referenceKey then (blobs reference).map fun id => .string (blobMark ++ id)
    else .ok (.object [(key, .string reference)])
  | .array items => (resolveItems blobs items).map .array
  | other => .ok other

/-- Replaces blob references in the items of an array. -/
def resolveItems (blobs : BlobResolver) : List Json → Except Error (List Json)
  | [] => .ok []
  | item :: rest => do
    let value ← resolve blobs item
    let values ← resolveItems blobs rest
    pure (value :: values)

end

/-- The field belongs to the document store and not to the node. -/
def isSystemField (name : String) : Bool :=
  name.toList.head? == some '_'

/-- The node's own properties, with blob references replaced. -/
def properties (blobs : BlobResolver) :
    List (String × Json) → Except Error (List (String × Json))
  | [] => .ok []
  | (name, value) :: rest =>
    if isSystemField name then properties blobs rest
    else do
      let value ← resolve blobs value
      let values ← properties blobs rest
      pure ((name, value) :: values)

/-- The node's own properties as JSON text, in key order. -/
def json (blobs : BlobResolver) (fields : List (String × Json)) : Except Error String :=
  (properties blobs fields).map fun pairs => (Json.object pairs).compact

/-- The path holds the character that ends a path in a payload. -/
def holdsDelimiter (path : String) : Bool :=
  path.toList.contains '|'

/-- The payload of the node at a path. -/
def encode (blobs : BlobResolver) (path : String) (fields : List (String × Json)) :
    Except Error Bytes :=
  if holdsDelimiter path then
    .error (.validation s!"path '{path}' contains the entry delimiter '|'")
  else
    (json blobs fields).map fun text => Utf8.encode path ++ delimiter :: Utf8.encode text

/-- Why a payload is no entry. -/
inductive DecodeFault
  | noDelimiter
  | pathNotText (fault : Utf8.Fault)
  deriving Repr, DecidableEq

/-- The wording of a fault. -/
def DecodeFault.message : DecodeFault → String
  | noDelimiter => "entry payload has no path delimiter"
  | pathNotText fault => s!"entry path is not UTF-8: {fault.message}"

/-- The fault as a failure. -/
def DecodeFault.toError (fault : DecodeFault) : Error :=
  .validation fault.message

/-- The path and the JSON of a payload: what stands before and after the first bar. -/
def decode (payload : Bytes) : Except DecodeFault (String × Bytes) :=
  match payload.dropWhile (· != delimiter) with
  | [] => .error .noDelimiter
  | _ :: json =>
    match Utf8.decode (payload.takeWhile (· != delimiter)) with
    | .error fault => .error (.pathNotText fault)
    | .ok path => .ok (path, json)

end Entry

end TreeExport

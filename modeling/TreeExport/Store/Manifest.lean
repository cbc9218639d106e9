import TreeExport.Json.Reader
import TreeExport.Json.Text
import TreeExport.Moment

/-!
# Manifests

The manifest of a store says what the store holds; it is written last, so a directory with a
manifest is a published store.  A manifest is written as a JSON object with its fields in a fixed
order.  It is read back from an object with the same fields in any order and with any others, or
from an array of the values of the fields in their order.
-/

namespace TreeExport

/-- The manifest of a store. -/
structure Manifest where
  version : Nat
  entries : Nat
  segments : Nat
  digest : String
  created : Moment
  checkpoint : Option String := none
  deriving Repr, DecidableEq

namespace Manifest

/-- The version of stores that are written, which is also the greatest that is read. -/
def currentVersion : Nat := 1

/-- The manifest as a JSON object. -/
def toJson (manifest : Manifest) : Json :=
  .object
    ([("format_version", .number (.whole manifest.version)),
        ("entry_count", .number (.whole manifest.entries)),
        ("segments_merged", .number (.whole manifest.segments)),
        ("sha256", .string manifest.digest),
        ("created_at", .string manifest.created.render)] ++
      (manifest.checkpoint.map fun label => ("checkpoint", .string label)).toList)

/-- The manifest as text. -/
def render (manifest : Manifest) : String :=
  manifest.toJson.pretty

/-! ## Reading -/

open Json (Written)

/-- A whole number of at most `bits` bits. -/
def word? (bits : Nat) : Written → Option Nat
  | .numeral n =>
    match n.value? with
    | some (.whole (.ofNat i)) => if i < Nat.pow 2 bits then some i else none
    | _ => none
  | _ => none

/-- A text. -/
def text? : Written → Option String
  | .text pieces => Json.Piece.text? pieces
  | _ => none

/-- A text or none. -/
def label? : Written → Option (Option String)
  | .null => some none
  | value => (text? value).map some

/-- The manifest that the values of its fields make up. -/
def ofFields? (version entries segments digest created : Written) (checkpoint : Option Written) :
    Option Manifest := do
  pure
    { version := ← word? 32 version
      entries := ← word? 64 entries
      segments := ← word? 64 segments
      digest := ← text? digest
      created := ← Moment.read? (← text? created)
      checkpoint := ← (checkpoint.map label?).getD (some none) }

/-- The value of a field, if the object has it.  More than one makes the object unreadable. -/
def field? (name : String) (fields : List (String × Written)) : Option (Option Written) :=
  match fields.filter (·.1 == name) with
  | [] => some none
  | [(_, value)] => some (some value)
  | _ => none

/-- The fields of an object by their names as strings. -/
def named? (fields : List (List Json.Piece × Written)) : Option (List (String × Written)) :=
  fields.mapM fun (name, value) => (Json.Piece.text? name).map (·, value)

/-- The manifest that a document is. -/
def ofWritten? : Written → Option Manifest
  | .object fields => do
    let fields ← named? fields
    ofFields? (← ← field? "format_version" fields) (← ← field? "entry_count" fields)
      (← ← field? "segments_merged" fields) (← ← field? "sha256" fields)
      (← ← field? "created_at" fields) (← field? "checkpoint" fields)
  | .array [version, entries, segments, digest, created] =>
    ofFields? version entries segments digest created none
  | .array [version, entries, segments, digest, created, checkpoint] =>
    ofFields? version entries segments digest created (some checkpoint)
  | _ => none

/-- The manifest that a text is. -/
def read? (text : String) : Option Manifest :=
  (Written.read? text).bind ofWritten?

end Manifest

end TreeExport

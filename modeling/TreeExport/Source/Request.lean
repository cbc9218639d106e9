import TreeExport.Filter.Subtree
import TreeExport.Record.Batch

/-!
# Requests for records

A request bounds the next batch and says which records it may hold.  Filters look only at the
paths of nodes: a record that is part of a split document, or whose id names no place, passes
every filter, so that it is judged where records are processed and not lost on the way.
-/

namespace TreeExport

/-- What a batch may hold. -/
structure BatchRequest where
  maxBytes : Nat
  maxDocuments : Nat
  filters : List PathFilter := []
  deriving Repr

namespace BatchRequest

/-- Some filter lets the path through, or there are no filters. -/
def accepts (request : BatchRequest) (path : String) : Bool :=
  request.filters.isEmpty || request.filters.any (·.accepts path)

/-- The record may be in a batch. -/
def acceptsRecord (request : BatchRequest) (record : Record) : Bool :=
  match record.locate with
  | .ok (.node path) => request.accepts path
  | _ => true

end BatchRequest

end TreeExport

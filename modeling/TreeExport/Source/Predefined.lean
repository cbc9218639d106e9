import TreeExport.Source.Request

/-!
# Records from lists

A source that holds its records in lists.  A batch comes from one list; what a request's bounds
leave of the list is kept in front of the others.  Once the lists are used up the source fails,
once, if it is made to.
-/

namespace TreeExport

/-- Lists of records to come. -/
structure Predefined where
  lists : List (List Record)
  failure : Option String := none
  /-- The number of batches that have been handed out. -/
  served : Nat := 0

namespace Predefined

/-- The longest beginning of a list that keeps a request's bounds, given the number and the size
of the records before it, and the rest.  The first record of a batch may be of any size. -/
def cut (request : BatchRequest) (count size : Nat) : List Record → List Record × List Record
  | [] => ([], [])
  | record :: rest =>
    if count = request.maxDocuments ∨
        (count ≠ 0 ∧ request.maxBytes < size + record.approximateSize) then
      ([], record :: rest)
    else
      let (taken, left) := cut request (count + 1) (size + record.approximateSize) rest
      (record :: taken, left)

/-- The lists with a remainder in front, unless nothing remains. -/
def putBack (remainder : List Record) (lists : List (List Record)) : List (List Record) :=
  if remainder.isEmpty then lists else remainder :: lists

/-- The next batch, or none once the lists are used up. -/
def next (request : BatchRequest) (source : Predefined) :
    Except Error (Option RecordBatch) × Predefined :=
  go source.lists
where
  /-- Looks for the first list with a wanted record. -/
  go : List (List Record) → Except Error (Option RecordBatch) × Predefined
    | [] =>
      match source.failure with
      | some message => (.error (.source message), { source with lists := [], failure := none })
      | none => (.ok none, { source with lists := [] })
    | list :: rest =>
      let wanted := list.filter request.acceptsRecord
      if wanted.isEmpty then go rest
      else
        let (taken, left) := cut request 0 0 wanted
        (.ok (some (.ofRecords taken)),
          { source with lists := putBack left rest, served := source.served + 1 })

/-- A name for messages. -/
def describe (source : Predefined) : String :=
  s!"in-memory ({source.lists.length} batches pending)"

end Predefined

end TreeExport

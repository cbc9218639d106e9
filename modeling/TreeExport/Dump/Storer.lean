import TreeExport.Dump.Verdict
import TreeExport.Pool.Call
import TreeExport.Store.Writer

/-!
# Sort-and-store

Sort-and-store takes full buffers, sorts the entries of each by path, appends them to the store as
one run, and returns the buffer empty, until the end of input.
-/

namespace TreeExport

namespace EntryBatch

/-- The entry that a key leads to, as it is stored. -/
def storedEntry (batch : EntryBatch) (key : SortKey) : Except Error StoredEntry := do
  let payload ← (batch.payloadAt key.offset).mapError Fault.toError
  let (_, json) ← (Entry.decode payload).mapError Entry.DecodeFault.toError
  pure ⟨key.path, json⟩

/-- The entries of a batch in the order of its keys, as they are stored. -/
def storedEntries (batch : EntryBatch) : Except Error (List StoredEntry) :=
  batch.keys.mapM batch.storedEntry

end EntryBatch

/-- What sort-and-store is about to do. -/
inductive Storer.Phase
  /-- To acquire a full buffer. -/
  | acquiring (call : Pool.Call)
  /-- To sort and to store the entries of a buffer. -/
  | storing (buffer : Buffer)
  /-- To return a buffer. -/
  | returning (call : Pool.Call)
  | finished
  | failed (cause : Error)

/-- Sort-and-store: the writer of the store, what it has counted, its token, and what it is about
to do. -/
structure Storer where
  writer : Store.Writer
  entries : Nat := 0
  batches : Nat := 0
  cancelled : Bool := false
  phase : Storer.Phase := .acquiring (.takeFull .check)

namespace Storer

/-- How sort-and-store ended, if it has. -/
def outcome? (storer : Storer) : Option (Except Error Unit) :=
  match storer.phase with
  | .finished => some (.ok ())
  | .failed cause => some (.error cause)
  | _ => none

/-- Sort-and-store goes on to something else. -/
def goTo (storer : Storer) (phase : Phase) : Storer :=
  { storer with phase := phase }

/-- Sorts the entries of a buffer and appends them to the store. -/
def store (storer : Storer) (buffer : Buffer) : FileTask Storer := do
  let batch := buffer.batch.sort
  let entries ← batch.storedEntries
  let (_, writer) ← storer.writer.append entries
  pure
    { storer with
      writer := writer
      entries := storer.entries + entries.length
      batches := storer.batches + 1
      phase := .returning (.giveBack { buffer with batch := batch }) }

/-- One step of an operation on the pool; `going` and `answered` say how sort-and-store goes on. -/
def callStep (storer : Storer) (pool : Pool) (side : Side) (call : Pool.Call)
    (going : Pool.Call → Phase) (answered : Pool.Answer → Phase) :
    Option (Program (Storer × Pool)) :=
  (call.advance pool storer.cancelled side).map fun (pool, progress) =>
    pure
      (storer.goTo
        (match progress with
          | .going next => going next
          | .answered (.ok answer) => answered answer
          | .answered (.error cause) => .failed cause),
        pool)

/-- The next step of sort-and-store and what becomes of the pool; none if the side that is named is
not ready or sort-and-store is over. -/
def step? (side : Side) (storer : Storer) (pool : Pool) : Option (Program (Storer × Pool)) :=
  match storer.phase with
  | .acquiring call =>
    storer.callStep pool side call .acquiring fun
      | .item (.buffer buffer) => .storing buffer
      | _ => .finished
  | .storing buffer =>
    some do
      match ← (storer.store buffer).run with
      | .ok storer => pure (storer, pool)
      | .error cause => pure (storer.goTo (.failed cause), pool)
  | .returning call =>
    storer.callStep pool side call .returning fun _ => .acquiring (.takeFull .check)
  | .finished => none
  | .failed _ => none

end Storer

end TreeExport

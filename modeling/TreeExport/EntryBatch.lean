import TreeExport.Error
import TreeExport.Length

/-!
# Batches of entries

A batch packs payloads one after the other into a buffer of fixed capacity, each behind its length
in four bytes, and keeps a key with path and offset for each.  Keys are sorted by path without
touching the buffer; keys of equal path keep the order of their offsets.
-/

namespace TreeExport

/-- Where the entry of a path lies in the buffer. -/
structure SortKey where
  path : String
  offset : Nat
  deriving Repr, DecidableEq

/-- Entries in a buffer, with their keys. -/
structure EntryBatch where
  capacity : Nat
  maxEntries : Nat
  buffer : Bytes := []
  keys : List SortKey := []
  deriving Repr, DecidableEq

namespace EntryBatch

/-- An empty batch. -/
def empty (capacity maxEntries : Nat) : EntryBatch where
  capacity := capacity
  maxEntries := maxEntries

/-- The number of bytes in use. -/
def size (batch : EntryBatch) : Nat := batch.buffer.length

/-- The number of entries. -/
def length (batch : EntryBatch) : Nat := batch.keys.length

/-- There are no entries. -/
def isEmpty (batch : EntryBatch) : Bool := batch.keys.isEmpty

/-- There is room for one more entry with a payload of a given length. -/
def hasSpace (batch : EntryBatch) (payloadLength : Nat) : Bool :=
  batch.length < batch.maxEntries &&
    batch.size + Length.width + payloadLength ≤ batch.capacity

/-- Why a batch does not take or give an entry. -/
inductive Fault
  | noSpace (path : String) (length used capacity entries maxEntries : Nat)
  | tooLong (path : String)
  | noEntry (offset : Nat)
  | truncated (offset : Nat)
  deriving Repr, DecidableEq

/-- The wording of a fault. -/
def Fault.message : Fault → String
  | noSpace path length used capacity entries maxEntries =>
    s!"entry for '{path}' ({length} bytes) does not fit in batch " ++
      s!"({used} of {capacity} bytes used, {entries} of {maxEntries} entries)"
  | tooLong path => s!"entry for '{path}' is larger than 4 GiB"
  | noEntry offset => s!"no entry at offset {offset}"
  | truncated offset => s!"truncated entry at offset {offset}"

/-- The fault as a failure. -/
def Fault.toError (fault : Fault) : Error :=
  .validation fault.message

/-- The batch with one more entry at the end of its buffer, which need not have room for it. -/
def push (batch : EntryBatch) (path : String) (payload : Bytes) : EntryBatch :=
  { batch with
    buffer := batch.buffer ++ (Length.encode payload.length ++ payload)
    keys := batch.keys ++ [⟨path, batch.size⟩] }

/-- Adds an entry; its offset is the size before. -/
def add (batch : EntryBatch) (path : String) (payload : Bytes) : Except Fault EntryBatch :=
  if !batch.hasSpace payload.length then
    .error (.noSpace path payload.length batch.size batch.capacity batch.length batch.maxEntries)
  else if Length.limit ≤ payload.length then .error (.tooLong path)
  else .ok (batch.push path payload)

/-- The payload of the entry at an offset. -/
def payloadAt (batch : EntryBatch) (offset : Nat) : Except Fault Bytes :=
  let tail := batch.buffer.drop offset
  let head := tail.take Length.width
  if head.length < Length.width then .error (.noEntry offset)
  else
    let body := tail.drop Length.width
    let length := Length.decode head
    if body.length < length then .error (.truncated offset)
    else .ok (body.take length)

/-- The keys by path; those of equal path stay in order. -/
def sort (batch : EntryBatch) : EntryBatch :=
  { batch with keys := batch.keys.mergeSort fun a b => a.path ≤ b.path }

/-- The batch without its entries. -/
def clear (batch : EntryBatch) : EntryBatch :=
  { batch with buffer := [], keys := [] }

end EntryBatch

end TreeExport

import TreeExport.Record.Basic

/-!
# Batches of records

Records travel from the source to the workers in batches that carry their size in bytes, as the
source that made them counts it.
-/

namespace TreeExport

/-- Records and their size in bytes. -/
structure RecordBatch where
  records : List Record := []
  size : Nat := 0
  deriving Repr

namespace RecordBatch

/-- A batch of records, each counted by its approximate size. -/
def ofRecords (records : List Record) : RecordBatch :=
  ⟨records, total (records.map Record.approximateSize)⟩

/-- Puts a record of a given size at the end. -/
def push (batch : RecordBatch) (record : Record) (size : Nat) : RecordBatch :=
  ⟨batch.records ++ [record], batch.size + size⟩

/-- The number of records. -/
def length (batch : RecordBatch) : Nat :=
  batch.records.length

/-- There are no records. -/
def isEmpty (batch : RecordBatch) : Bool :=
  batch.records.isEmpty

@[simp] theorem records_push (batch : RecordBatch) (record : Record) (size : Nat) :
    (batch.push record size).records = batch.records ++ [record] := rfl

@[simp] theorem size_push (batch : RecordBatch) (record : Record) (size : Nat) :
    (batch.push record size).size = batch.size + size := rfl

end RecordBatch

end TreeExport

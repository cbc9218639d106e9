import TreeExport.Entry
import TreeExport.Record.Basic
import TreeExport.Statistics

/-!
# What becomes of a record

A record is judged by its id, its deletion mark and its path, in this order; a node that passes
becomes an entry.  Nothing but the record, the predicate and the blobs has a say in it.
-/

namespace TreeExport

/-- What a dump makes of records: which paths it wants, and where blobs are found. -/
structure Extraction where
  wants : String → Bool
  blobs : BlobResolver

/-- What becomes of a record. -/
inductive Verdict
  /-- Its id names no place. -/
  | malformed (fault : Record.IdFault)
  /-- It is a part of a split document. -/
  | split
  | deleted (path : String)
  | hidden (path : String)
  | filtered (path : String)
  /-- It becomes the entry of a path. -/
  | accepted (path : String)
  deriving Repr, DecidableEq

namespace Extraction

/-- Judges a record. -/
def judge (extraction : Extraction) (record : Record) : Verdict :=
  match record.locate with
  | .error fault => .malformed fault
  | .ok .split => .split
  | .ok (.node path) =>
    if record.deleted then .deleted path
    else if Path.isHidden path then .hidden path
    else if !extraction.wants path then .filtered path
    else .accepted path

/-- The payload of a record that becomes the entry of a path. -/
def payload (extraction : Extraction) (path : String) (record : Record) : Except Error Bytes :=
  Entry.encode extraction.blobs path record.fields

end Extraction

namespace Statistics

/-- Counts a record that is taken up.  An accepted one is counted as such only once it has its place
in a buffer. -/
def addVerdict (s : Statistics) : Verdict → Statistics
  | .malformed _ => s
  | .split => { s with split := s.split + 1 }
  | .deleted path => s.addDeleted path
  | .hidden path => s.addHidden path
  | .filtered path => s.addFiltered path
  | .accepted _ => s

end Statistics

/-- The verdict turns a node down. -/
def Verdict.isRejection : Verdict → Bool
  | deleted _ => true
  | hidden _ => true
  | filtered _ => true
  | _ => false

end TreeExport

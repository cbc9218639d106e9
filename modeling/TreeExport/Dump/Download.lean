import TreeExport.Queue
import TreeExport.Source.Basic

/-!
# Download

The download asks the source for batch after batch and sends each to the raw queue; after the last
one it sends the end of the stream.  If the source fails, or the download is cancelled, the end of
the stream is never sent.
-/

namespace TreeExport

/-- What workers receive. -/
inductive RawItem
  | batch (batch : RecordBatch)
  /-- The source has no more records.  A worker that receives this passes it on. -/
  | endOfStream

/-- What the download is about to do. -/
inductive Download.Phase
  /-- To look at its token. -/
  | checking
  /-- To ask the source. -/
  | asking
  | sending (batch : RecordBatch) (attempt : Attempt)
  /-- To send the end of the stream. -/
  | ending (attempt : Attempt)
  | finished
  | failed (cause : Error)

/-- The download: its source, what it has counted, its token, and what it is about to do. -/
structure Download (σ : Type) where
  source : σ
  documents : Nat := 0
  batches : Nat := 0
  cancelled : Bool := false
  phase : Download.Phase := .checking

namespace Download

variable {σ : Type}

/-- How the download ended, if it has. -/
def outcome? (download : Download σ) : Option (Except Error Unit) :=
  match download.phase with
  | .finished => some (.ok ())
  | .failed cause => some (.error cause)
  | _ => none

/-- The download fails. -/
def fail (download : Download σ) (cause : Error) : Download σ :=
  { download with phase := .failed cause }

/-- Takes up the answer of the source. -/
def takeAnswer (download : Download σ) :
    Except Error (Option RecordBatch) → Download σ
  | .error cause => download.fail cause
  | .ok none => { download with phase := .ending .check }
  | .ok (some batch) =>
    if batch.isEmpty then { download with phase := .checking }
    else
      { download with
        documents := download.documents + batch.length
        batches := download.batches + 1
        phase := .sending batch .check }

/-- The next step of the download and what becomes of the raw queue; none if the side that is named
is not ready or the download is over. -/
def step? [RecordSource σ] (request : BatchRequest) (side : Side) (download : Download σ)
    (raw : Queue RawItem) : Option (Download σ × Queue RawItem) :=
  match download.phase with
  | .checking =>
    some (if download.cancelled then download.fail .cancelled
      else { download with phase := .asking }, raw)
  | .asking =>
    let (answer, source) := RecordSource.next request download.source
    some ({ download with source := source }.takeAnswer answer, raw)
  | .sending batch attempt =>
    (raw.send (.batch batch) download.cancelled side attempt).map fun (raw, progress) =>
      match progress with
      | .waiting => ({ download with phase := .sending batch .wait }, raw)
      | .over (.ok ()) => ({ download with phase := .checking }, raw)
      | .over (.error cause) => (download.fail cause, raw)
  | .ending attempt =>
    (raw.send .endOfStream download.cancelled side attempt).map fun (raw, progress) =>
      match progress with
      | .waiting => ({ download with phase := .ending .wait }, raw)
      | .over (.ok ()) => ({ download with phase := .finished }, raw)
      | .over (.error cause) => (download.fail cause, raw)
  | .finished => none
  | .failed _ => none

end Download

end TreeExport

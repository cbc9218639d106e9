import TreeExport.Store.Manifest
import TreeExport.Store.Passes

/-!
# Writing stores

A writer takes sorted runs of entries and writes each as a segment of its own.  Closing it merges
the segments into one file of entries and then publishes the store by giving the manifest its name.
Until then whatever the directory holds is no store, and another writer may start over.
-/

namespace TreeExport

namespace Store

/-- The path of the manifest of a store. -/
def manifestPath (directory : String) : String :=
  Path.join directory "manifest.json"

/-- The path of the manifest before it is published. -/
def manifestDraftPath (directory : String) : String :=
  Path.join directory "manifest.json.tmp"

/-- The path of the entries of a store. -/
def dataPath (directory : String) : String :=
  Path.join directory "entries.dat"

/-- The path of the entries before they are all merged. -/
def dataDraftPath (directory : String) : String :=
  Path.join directory "entries.dat.tmp"

/-- The path of the segments of a store. -/
def segmentsPath (directory : String) : String :=
  Path.join directory "segments"

/-- The path of a segment by its number. -/
def segmentPath (directory : String) (number : Nat) : String :=
  Path.join (segmentsPath directory) s!"segment-{Decimal.padded 6 number}.dat"

end Store

/-- A segment that has been written. -/
structure Segment where
  path : String
  entries : Nat
  bytes : Nat
  deriving Repr, DecidableEq

/-- A writer of a store: its directory, the segments written so far, the number of their entries,
the label for the manifest, and the number of files that are merged at once. -/
structure Store.Writer where
  directory : String
  segments : List Segment := []
  appended : Nat := 0
  checkpoint : Option String := none
  fanIn : Nat := 64
  deriving Repr, DecidableEq

namespace Store.Writer

/-- Why a writer refuses. -/
inductive Refusal
  | published (directory : String)
  | outOfOrder (path previous : String)
  | miscounted (merged appended : Nat)
  deriving Repr, DecidableEq

/-- The wording of a refusal. -/
def Refusal.message : Refusal → String
  | published directory => s!"{directory} already contains a published store"
  | outOfOrder path previous => s!"entries appended out of order: '{path}' after '{previous}'"
  | miscounted merged appended => s!"merged {merged} entries but {appended} were appended"

/-- A refusal as a failure. -/
def Refusal.toError (refusal : Refusal) : Error :=
  .storage refusal.message

/-- Opens a writer for a directory, which is made if it is missing.  Segments that another writer
left behind are removed. -/
def openAt (directory : String) : FileTask Store.Writer := do
  if ← FileTask.isThere (Store.manifestPath directory) then
    throw (Refusal.toError (.published directory))
  if ← FileTask.isThere (Store.segmentsPath directory) then
    FileTask.removeTree (Store.segmentsPath directory)
  FileTask.makeDirectories (Store.segmentsPath directory)
  pure { directory := directory }

/-- Sets the fan-in, which is at least two. -/
def setFanIn (writer : Store.Writer) (fanIn : Nat) : Store.Writer :=
  { writer with fanIn := max fanIn 2 }

/-- Writes entries to a file that is there already, after one of path `previous` if there is one;
their number and that of their bytes count on from those of `segment`. -/
def writeEntries (segment : Segment) (previous : Option String) :
    List StoredEntry → FileTask Segment
  | [] => pure segment
  | entry :: rest => do
    match previous with
    | some path =>
      if entry.path < path then throw (Refusal.toError (.outOfOrder entry.path path))
    | none => pure ()
    match entry.encode with
    | .error reason => throw (.file segment.path reason.message)
    | .ok bytes =>
      FileTask.change segment.path (.extend segment.path bytes)
      writeEntries ⟨segment.path, segment.entries + 1, segment.bytes + bytes.length⟩
        (some entry.path) rest

/-- Writes a sorted run as a new segment; an empty run makes none.  A run that fails leaves the
writer as it was and its file behind, which the next run writes anew. -/
def append (writer : Store.Writer) (entries : List StoredEntry) :
    FileTask (Option Segment × Store.Writer) := do
  if entries.isEmpty then pure (none, writer)
  else
    let path := Store.segmentPath writer.directory (writer.segments.length + 1)
    FileTask.change path (.create path)
    let segment ← writeEntries ⟨path, 0, 0⟩ none entries
    pure (some segment,
      { writer with
        segments := writer.segments ++ [segment]
        appended := writer.appended + segment.entries })

/-- Publishes a manifest.  It is written under another name first, so that no reader sees a part
of it. -/
def publish (directory : String) (manifest : Manifest) : FileTask Unit := do
  let draft := Store.manifestDraftPath directory
  FileTask.write draft (Utf8.encode manifest.render)
  FileTask.change (Store.manifestPath directory) (.rename draft (Store.manifestPath directory))

/-- Merges the segments into the file of entries and publishes the store. -/
def close (writer : Store.Writer) : FileTask Manifest := do
  let draft := Store.dataDraftPath writer.directory
  let segments := Store.segmentsPath writer.directory
  FileTask.change draft (.create draft)
  let plan := MergePlan.make segments writer.fanIn (writer.segments.map (·.path))
  let output ← plan.run { path := draft }
  if output.entries ≠ writer.appended then
    throw (Refusal.toError (.miscounted output.entries writer.appended))
  let path := Store.dataPath writer.directory
  FileTask.change path (.rename draft path)
  FileTask.removeTree segments
  let manifest : Manifest :=
    { version := Manifest.currentVersion
      entries := output.entries
      segments := writer.segments.length
      digest := output.digest.finish
      created := ← FileTask.now
      checkpoint := writer.checkpoint }
  publish writer.directory manifest
  pure manifest

end Store.Writer

end TreeExport

import TreeExport.Histogram
import TreeExport.Path
import TreeExport.Report

/-!
# Statistics of a run

Each worker counts what it makes of its records; the counts of all workers are merged at the end.
Rejected nodes are also counted by region, the ancestor at depth three or the parent if that lies
higher.  `LiveCounters` are the counts that all workers share while they run.
-/

namespace TreeExport

/-- The depth of the regions that rejected nodes are counted by. -/
def regionDepth : Nat := 3

/-- The region of a node: a proper ancestor, unless it is the root. -/
def regionOf (path : String) : String :=
  Path.ancestor path (min (Path.depth path - 1) regionDepth)

/-- What a worker counts. -/
structure Statistics where
  processed : Nat := 0
  split : Nat := 0
  deleted : Nat := 0
  accepted : Nat := 0
  hidden : Nat := 0
  filtered : Nat := 0
  bytes : Nat := 0
  hiddenRegions : Histogram := { name := "hiddenPathsRejected" }
  filteredRegions : Histogram := { name := "filteredPathsRejected" }
  deletedRegions : Histogram := { name := "emptyNodeStateHistogram" }
  deriving Repr, DecidableEq

namespace Statistics

/-- Counts a hidden node. -/
def addHidden (s : Statistics) (path : String) : Statistics :=
  { s with hidden := s.hidden + 1, hiddenRegions := s.hiddenRegions.add (regionOf path) }

/-- Counts a node that is filtered out. -/
def addFiltered (s : Statistics) (path : String) : Statistics :=
  { s with filtered := s.filtered + 1, filteredRegions := s.filteredRegions.add (regionOf path) }

/-- Counts a deleted node. -/
def addDeleted (s : Statistics) (path : String) : Statistics :=
  { s with deleted := s.deleted + 1, deletedRegions := s.deletedRegions.add (regionOf path) }

/-- Counts an entry with a payload of some bytes. -/
def addAccepted (s : Statistics) (bytes : Nat) : Statistics :=
  { s with accepted := s.accepted + 1, bytes := s.bytes + bytes }

/-- The number of nodes that were deleted, hidden or filtered out. -/
def rejected (s : Statistics) : Nat :=
  s.deleted + s.hidden + s.filtered

/-- The counts of two workers together. -/
def merge (s t : Statistics) : Statistics where
  processed := s.processed + t.processed
  split := s.split + t.split
  deleted := s.deleted + t.deleted
  accepted := s.accepted + t.accepted
  hidden := s.hidden + t.hidden
  filtered := s.filtered + t.filtered
  bytes := s.bytes + t.bytes
  hiddenRegions := s.hiddenRegions.merge t.hiddenRegions
  filteredRegions := s.filteredRegions.merge t.filteredRegions
  deletedRegions := s.deletedRegions.merge t.deletedRegions

/-- The counts by the names under which they are reported. -/
def metrics (s : Statistics) : List (String × Nat) :=
  [("documents_processed", s.processed),
    ("split_documents_rejected", s.split),
    ("empty_node_states_rejected", s.deleted),
    ("entries_accepted", s.accepted),
    ("entries_rejected", s.rejected),
    ("hidden_entries_rejected", s.hidden),
    ("filtered_entries_rejected", s.filtered),
    ("extracted_bytes", s.bytes)]

/-- The counts on one line. -/
def render (s : Statistics) : String :=
  ", ".intercalate (s.metrics.map fun (name, value) => s!"{name}={value}")

/-- The histograms, in the order in which they are shown. -/
def histograms (s : Statistics) : List Histogram :=
  [s.hiddenRegions, s.filteredRegions, s.deletedRegions]

/-- Reports the counts. -/
def publish (s : Statistics) (report : Report) : Report :=
  s.metrics.foldl (fun report entry => report.addMetric s!"transform.{entry.1}" entry.2) report

end Statistics

/-- The counts that all workers share. -/
structure LiveCounters where
  processed : Nat := 0
  accepted : Nat := 0
  rejected : Nat := 0
  deriving Repr, DecidableEq

namespace LiveCounters

/-- Counts a record. -/
def addProcessed (c : LiveCounters) : LiveCounters :=
  { c with processed := c.processed + 1 }

/-- Counts an accepted entry. -/
def addAccepted (c : LiveCounters) : LiveCounters :=
  { c with accepted := c.accepted + 1 }

/-- Counts a rejected node. -/
def addRejected (c : LiveCounters) : LiveCounters :=
  { c with rejected := c.rejected + 1 }

end LiveCounters

end TreeExport

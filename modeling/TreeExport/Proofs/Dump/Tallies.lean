import TreeExport.Proofs.Dump.Entries
import TreeExport.Proofs.Histogram
import TreeExport.Proofs.Statistics

/-!
# What records amount to

`Extraction.Tallies` says what is counted of some records: each counter is the number of the records
that are judged so, whatever their order, and each histogram has counted their regions.  A record
more counts once (`Tallies.passOver`, `Tallies.accept`), and statistics that are merged count the
records of all (`Tallies.gathers`), in whatever order that is done.
-/

namespace TreeExport

/-- The path of a node that is turned down in some way. -/
def Verdict.path? : Rejection → Verdict → Option String
  | .deleted, .deleted path => some path
  | .hidden, .hidden path => some path
  | .filtered, .filtered path => some path
  | _, _ => none

namespace Extraction

/-- The regions of the nodes among some records that are turned down in some way. -/
def regions (extraction : Extraction) (kind : Rejection) (records : List Record) : List String :=
  records.filterMap fun record => ((extraction.judge record).path? kind).map regionOf

/-- The number of parts of split documents among some records. -/
def splits (extraction : Extraction) (records : List Record) : Nat :=
  records.countP fun record => extraction.judge record == .split

/-- The bytes of the entries that some records become. -/
def entryBytes (extraction : Extraction) (records : List Record) : Nat :=
  total ((records.filterMap extraction.entry?).map fun entry => entry.payload.length)

/-- The statistics are those of some records. -/
structure Tallies (extraction : Extraction) (records : List Record) (s : Statistics) : Prop where
  processed : s.processed = records.length
  balance : s.processed = s.split + s.deleted + s.hidden + s.filtered + s.accepted
  split : s.split = extraction.splits records
  rejections : ∀ kind, s.rejections kind = (extraction.regions kind records).length
  regions : ∀ kind, Histogram.Grows 1000 (extraction.regions kind records) (s.regions kind)
  accepted : s.accepted = (records.filterMap extraction.entry?).length
  bytes : s.bytes = extraction.entryBytes records

variable {extraction : Extraction} {records others : List Record} {record : Record}
  {s t : Statistics} {path : String} {payload : Bytes}

theorem tallies_nil (extraction : Extraction) : extraction.Tallies [] {} where
  processed := rfl
  balance := rfl
  split := rfl
  rejections kind := by cases kind <;> rfl
  regions kind := by cases kind <;> exact .empty _
  accepted := rfl
  bytes := rfl

/-- The order of the records does not matter. -/
theorem Tallies.perm (tallies : extraction.Tallies records s) (perm : others.Perm records) :
    extraction.Tallies others s where
  processed := tallies.processed.trans perm.length_eq.symm
  balance := tallies.balance
  split := tallies.split.trans (perm.countP_eq _).symm
  rejections kind := (tallies.rejections kind).trans (perm.filterMap _).length_eq.symm
  regions kind := by
    have same : (extraction.regions kind others : Multiset String) =
        extraction.regions kind records := Multiset.coe_eq_coe.mpr (perm.filterMap _)
    rw [same]
    exact tallies.regions kind
  accepted := tallies.accepted.trans (perm.filterMap _).length_eq.symm
  bytes := tallies.bytes.trans (total_perm ((perm.filterMap _).map _)).symm

/-! ## One record more -/

theorem regions_append (extraction : Extraction) (kind : Rejection) (records others : List Record) :
    extraction.regions kind (records ++ others) =
      extraction.regions kind records ++ extraction.regions kind others :=
  List.filterMap_append

theorem regions_singleton (extraction : Extraction) (kind : Rejection) (record : Record) :
    extraction.regions kind [record] =
      (((extraction.judge record).path? kind).map regionOf).toList := by
  rw [regions, List.filterMap_cons, List.filterMap_nil]
  cases ((extraction.judge record).path? kind).map regionOf <;> rfl

theorem splits_append (extraction : Extraction) (records others : List Record) :
    extraction.splits (records ++ others) = extraction.splits records + extraction.splits others :=
  List.countP_append

theorem entryBytes_append (extraction : Extraction) (records others : List Record) :
    extraction.entryBytes (records ++ others) =
      extraction.entryBytes records + extraction.entryBytes others := by
  rw [entryBytes, List.filterMap_append, List.map_append, total_append]
  rfl

theorem rejections_addVerdict (s : Statistics) (verdict : Verdict) (kind : Rejection) :
    (s.addVerdict verdict).rejections kind =
      s.rejections kind + ((verdict.path? kind).map regionOf).toList.length := by
  cases verdict <;> cases kind <;> rfl

theorem regions_addVerdict (s : Statistics) (verdict : Verdict) (kind : Rejection) :
    (s.addVerdict verdict).regions kind =
      ((verdict.path? kind).map regionOf).toList.foldl Histogram.add (s.regions kind) := by
  cases verdict <;> cases kind <;> rfl

/-- The statistics with a record counted that is judged in some way. -/
def counted (s : Statistics) (verdict : Verdict) : Statistics :=
  { s with processed := s.processed + 1 }.addVerdict verdict

theorem regions_counted (s : Statistics) (verdict : Verdict) (kind : Rejection) :
    (counted s verdict).regions kind =
      ((verdict.path? kind).map regionOf).toList.foldl Histogram.add (s.regions kind) := by
  rw [counted, regions_addVerdict]
  cases kind <;> rfl

/-- Whatever becomes of a record, it is counted in the way in which it is turned down, if it is. -/
theorem Tallies.rejections_counted (tallies : extraction.Tallies records s) (record : Record)
    (kind : Rejection) : (counted s (extraction.judge record)).rejections kind =
      (extraction.regions kind (records ++ [record])).length := by
  rw [counted, rejections_addVerdict, regions_append, regions_singleton, List.length_append,
    ← tallies.rejections kind]
  cases kind <;> rfl

theorem Tallies.grows_counted (tallies : extraction.Tallies records s) (record : Record)
    (kind : Rejection) : Histogram.Grows 1000 (extraction.regions kind (records ++ [record]))
      ((counted s (extraction.judge record)).regions kind) := by
  have grows := tallies.regions kind
  rw [regions_counted, regions_append, regions_singleton, ← Multiset.coe_add]
  cases ((extraction.judge record).path? kind).map regionOf with
  | none =>
    rw [Option.toList_none, Multiset.coe_nil, add_zero]
    exact grows
  | some region => exact grows.add region

/-- A record that is passed over. -/
theorem Tallies.passOver (tallies : extraction.Tallies records s)
    (wellFormed : ∀ fault, extraction.judge record ≠ .malformed fault)
    (unwanted : ∀ path, extraction.judge record ≠ .accepted path) :
    extraction.Tallies (records ++ [record]) (counted s (extraction.judge record)) := by
  have none : [record].filterMap extraction.entry? = [] := by
    rw [List.filterMap_cons, entry?_eq_none unwanted, List.filterMap_nil]
  have same : (records ++ [record]).filterMap extraction.entry? =
      records.filterMap extraction.entry? := by
    rw [List.filterMap_append, none, List.append_nil]
  have balance := tallies.balance
  refine
    { processed := ?_, balance := ?_, split := ?_
      rejections := tallies.rejections_counted record, regions := tallies.grows_counted record
      accepted := ?_, bytes := ?_ }
  · rw [List.length_append, ← tallies.processed]
    cases extraction.judge record <;> rfl
  · cases verdict : extraction.judge record with
    | malformed fault => exact absurd verdict (wellFormed fault)
    | accepted path => exact absurd verdict (unwanted path)
    | _ =>
      simp only [counted, Statistics.addVerdict, Statistics.addDeleted, Statistics.addHidden,
        Statistics.addFiltered]
      omega
  · rw [splits_append, ← tallies.split, splits, List.countP_singleton]
    cases extraction.judge record <;> rfl
  · rw [same, ← tallies.accepted]
    cases extraction.judge record <;> rfl
  · rw [entryBytes_append, ← tallies.bytes, entryBytes, none]
    cases extraction.judge record <;> rfl

/-- A record that becomes an entry. -/
theorem Tallies.accept (tallies : extraction.Tallies records s)
    (verdict : extraction.judge record = .accepted path)
    (encoded : extraction.payload path record = .ok payload) :
    extraction.Tallies (records ++ [record])
      ((counted s (extraction.judge record)).addAccepted payload.length) := by
  obtain ⟨entry, found, -, rfl, -⟩ := entry?_of_payload verdict encoded
  have one : [record].filterMap extraction.entry? = [entry] := by
    rw [List.filterMap_cons, found, List.filterMap_nil]
  have balance := tallies.balance
  refine
    { processed := ?_, balance := ?_, split := ?_
      rejections := fun kind => ?_, regions := fun kind => ?_
      accepted := ?_, bytes := ?_ }
  · rw [List.length_append, ← tallies.processed, verdict]
    rfl
  · rw [verdict]
    simp only [counted, Statistics.addVerdict, Statistics.addAccepted]
    omega
  · rw [splits_append, ← tallies.split, splits, List.countP_singleton, verdict]
    rfl
  · rw [← tallies.rejections_counted record kind]
    cases kind <;> rfl
  · have grows := tallies.grows_counted record kind
    cases kind <;> exact grows
  · rw [List.filterMap_append, one, List.length_append, ← tallies.accepted, verdict]
    rfl
  · rw [entryBytes_append, ← tallies.bytes, entryBytes, one, verdict]
    rfl

/-! ## Merging -/

/-- The records of two workers, whatever order the entries of histograms are visited in. -/
theorem Tallies.merge {order : Rejection → List (String × Nat)}
    (tallies : extraction.Tallies records s) (otherTallies : extraction.Tallies others t)
    (perm : ∀ kind, (order kind).Perm (t.regions kind).counts) :
    extraction.Tallies (records ++ others) (s.mergeInOrder t order) where
  processed := by
    rw [List.length_append, ← tallies.processed, ← otherTallies.processed]
    rfl
  balance := by
    have here := tallies.balance
    have there := otherTallies.balance
    simp only [Statistics.mergeInOrder, Statistics.merge]
    omega
  split := by
    rw [splits_append, ← tallies.split, ← otherTallies.split]
    rfl
  rejections kind := by
    rw [Statistics.rejections_mergeInOrder, regions_append, List.length_append,
      tallies.rejections kind, otherTallies.rejections kind]
  regions kind := by
    rw [Statistics.regions_mergeInOrder, regions_append, ← Multiset.coe_add]
    exact (tallies.regions kind).merge (otherTallies.regions kind) (perm kind)
  accepted := by
    rw [List.filterMap_append, List.length_append, ← tallies.accepted, ← otherTallies.accepted]
    rfl
  bytes := by
    rw [entryBytes_append, ← tallies.bytes, ← otherTallies.bytes]
    rfl

/-- The records of all, in whatever order their statistics are merged. -/
theorem tallies_of_gathers {shares : List (List Record)} {parts : List Statistics}
    (each : List.Forall₂ extraction.Tallies shares parts) (gathers : Statistics.Gathers parts s) :
    extraction.Tallies shares.flatten s := by
  induction gathers generalizing shares with
  | nil =>
    cases each
    exact tallies_nil extraction
  | cons perm _ ih =>
    cases each with
    | cons first rest =>
      rw [List.flatten_cons]
      exact ((ih rest).merge first perm).perm List.perm_append_comm

/-- All counters are determined by the records. -/
theorem Tallies.metrics_eq (tallies : extraction.Tallies records s)
    (again : extraction.Tallies records t) : t.metrics = s.metrics := by
  have rejections (kind : Rejection) : t.rejections kind = s.rejections kind :=
    (again.rejections kind).trans (tallies.rejections kind).symm
  have deleted : t.deleted = s.deleted := rejections .deleted
  have hidden : t.hidden = s.hidden := rejections .hidden
  have filtered : t.filtered = s.filtered := rejections .filtered
  rw [Statistics.metrics, Statistics.metrics, Statistics.rejected, Statistics.rejected, deleted,
    hidden, filtered, again.processed, again.split, again.accepted, again.bytes, tallies.processed,
    tallies.split, tallies.accepted, tallies.bytes]

/-! ## Counts of regions -/

/-- The counts of regions add up to the number of nodes, unless there were too many regions. -/
theorem Tallies.total_regions (tallies : extraction.Tallies records s) (kind : Rejection) :
    total ((s.regions kind).counts.map Prod.snd) ≤ s.rejections kind ∧
      (total ((s.regions kind).counts.map Prod.snd) = s.rejections kind ↔
        (s.regions kind).overflowed = false) := by
  rw [tallies.rejections kind, ← Multiset.coe_card]
  exact (tallies.regions kind).keeps.total_counts

end Extraction

end TreeExport

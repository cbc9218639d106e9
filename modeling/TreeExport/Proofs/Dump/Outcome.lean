import TreeExport.Proofs.Dump.Completion
import TreeExport.Proofs.Dump.Turns

/-!
# What a run leaves behind

A run that ends well leaves a store behind that holds just the entries of the records that were
accepted, sorted by the bytes of their paths (`Job.Reaches.store_holds_accepted`).  Entries of one
path stand in the order in which their worker took up the records; so the file of entries depends on
nothing but the records where one worker is alone, or where no path is accepted twice
(`Job.Reaches.keeps_order`).
-/

namespace TreeExport

variable {σ : Type} [RecordSource σ] {job : Job σ} {assured : Prop} {files₀ : Files}
  {actions : List Action} {log : List (Nat × Record)} {world : World σ}
  {batches : List RecordBatch} {failure : Option Error} {result : RunResult}

/-- The paths of sorted entries do not go down, byte by byte. -/
theorem pairwise_encode_stableSort (entries : List StoredEntry) :
    (stableSort StoredEntry.path entries).Pairwise fun a b =>
      Utf8.encode a.path ≤ Utf8.encode b.path :=
  List.Pairwise.imp (fun ordered => Utf8.encode_le_encode.mpr ordered) (sortedBy_stableSort entries)

/-- Whatever the order of steps, a run that ends well has published a store whose entries are sorted
by the bytes of their paths, and are those of the accepted records of all that the source has handed
out. -/
theorem Job.Reaches.store_holds_accepted
    (reached : job.Reaches assured files₀ actions log world) (stands : job.settings.Stands)
    (proper : files₀.IsProper)
    (finite : RecordSource.Yields job.request job.source batches failure)
    (returned : world.dump.coordinator.phase = .returned (.ok result)) :
    ∃ entries : List StoredEntry,
      (∀ time, (Store.Reader.entries ⟨job.directory, result.manifest⟩).runOn time world.files =
        (.ok ⟨Store.dataPath job.directory, entries, none⟩, world.files)) ∧
      (entries.length < 2 ^ 64 → result.manifest.created.IsOfClock → ∀ time,
        (Store.Reader.openAt job.directory).runOn time world.files =
          (.ok ⟨job.directory, result.manifest⟩, world.files)) ∧
      (entries.Pairwise fun a b => Utf8.encode a.path ≤ Utf8.encode b.path) ∧
      entries.Perm ((batches.flatMap RecordBatch.records).filterMap job.extraction.entry?) ∧
      (∀ record ∈ batches.flatMap RecordBatch.records, ∀ path,
        job.extraction.Accepts record path →
          ∃ text, Entry.json job.extraction.blobs record.fields = .ok text ∧
            job.extraction.entry? record = some ⟨path, Utf8.encode text⟩) ∧
      (∀ record ∈ batches.flatMap RecordBatch.records,
        (∀ path, ¬ job.extraction.Accepts record path) →
          job.extraction.entry? record = none) ∧
      result.downloaded = (batches.flatMap RecordBatch.records).length ∧
      result.statistics.processed = (batches.flatMap RecordBatch.records).length ∧
      result.extracted = entries.length ∧ result.stored = entries.length ∧
      result.manifest.entries = entries.length := by
  obtain ⟨-, submitted, settles, publishes, short, describes, downloaded, processed, extracted,
    stored⟩ := reached.publishes stands.isSized proper finite returned
  have shortSorted : ∀ entry ∈ stableSort StoredEntry.path (submitted.map Prod.snd).flatten,
      entry.IsShort := fun entry member => short entry (mem_stableSort.mp member)
  refine ⟨_, fun time => publishes.reads shortSorted rfl, fun few shown time => ?_,
    pairwise_encode_stableSort _, (stableSort_perm _).trans settles.entries_perm, ?_, ?_,
    downloaded, processed, ?_, ?_, describes.count⟩
  · exact publishes.opens (describes.isLegible few shown) describes
  · exact fun record member path accepts =>
      Extraction.entry?_of_accepts accepts (settles.faultless record member)
  · exact fun record _ unwanted => Extraction.entry?_of_not_accepts unwanted
  · rw [extracted, length_stableSort]
  · rw [stored, length_stableSort]

/-- The small job ends well, so its store holds the entry of its one accepted record. -/
theorem Job.small_store_holds_accepted : ∃ (result : RunResult) (entries : List StoredEntry),
    (Job.smallWorld 2 60).dump.coordinator.phase = .returned (.ok result) ∧
      entries.Perm (Job.fewRecords.filterMap fun record => Extraction.entry? (Job.small 2).extraction record) ∧
      result.manifest.entries = entries.length := by
  obtain ⟨actions, log, result, reached, returned⟩ := Job.small_ends
  have proper : Files.IsProper {} := ⟨nofun, nofun⟩
  obtain ⟨entries, -, -, -, perm, -, -, -, -, -, -, count⟩ :=
    reached.store_holds_accepted Job.small_stands proper (Job.small_yields 2) returned
  exact ⟨result, entries, returned, perm, count⟩

/-! ## The order of equal paths -/

omit [RecordSource σ] in
theorem itemsAt_shareOf (id : Nat) (path : String) (dealt : List (Nat × StoredEntry)) :
    itemsAt StoredEntry.path path (shareOf id dealt) =
      shareOf id (itemsAt (fun deal => deal.2.path) path dealt) := by
  induction dealt with
  | nil => rfl
  | cons deal dealt ih =>
    obtain ⟨taker, entry⟩ := deal
    have split : (taker, entry) :: dealt = [(taker, entry)] ++ dealt := rfl
    rw [split, shareOf_append, itemsAt_append, itemsAt_append, shareOf_append, ih]
    congr 1
    by_cases mine : taker = id <;> by_cases here : entry.path = path <;>
      simp [shareOf, itemsAt, mine, here]

omit [RecordSource σ] in
/-- Sorted entries can be told apart by their workers, so that for each worker and each path they
stand in the order in which the worker has taken up the records. -/
theorem Job.Settles.exists_dealt {all : List Record} {submitted : List (Nat × List StoredEntry)}
    (settles : job.Settles all log submitted) :
    ∃ dealt : List (Nat × StoredEntry),
      dealt.map Prod.snd = stableSort StoredEntry.path (submitted.map Prod.snd).flatten ∧
        ∀ id path, itemsAt StoredEntry.path path (shareOf id dealt) =
          itemsAt StoredEntry.path path
            ((shareOf id log).filterMap job.extraction.entry?) := by
  refine ⟨stableSort (fun deal => deal.2.path) (markedEntries submitted), ?_, fun id path => ?_⟩
  · have paths : ∀ deal : Nat × StoredEntry, deal.2.path = deal.2.path := fun _ => rfl
    rw [stableSort_map Prod.snd paths, map_snd_markedEntries]
  · rw [itemsAt_shareOf, itemsAt_stableSort, ← itemsAt_shareOf, settles.shareOf_markedEntries]

/-- In the store of a run that ends well, the entries of one path that come from one worker stand in
the order in which that worker has taken up their records.  Where one worker is alone, the bytes of
the entries are those of the stable sort in the order of the source.  Where no accepted path occurs
twice, every other run that ends well over the same records leaves the same bytes and the same
digest, whatever its settings and the order of its steps. -/
theorem Job.Reaches.keeps_order
    (reached : job.Reaches assured files₀ actions log world) (stands : job.settings.Stands)
    (proper : files₀.IsProper)
    (finite : RecordSource.Yields job.request job.source batches failure)
    (returned : world.dump.coordinator.phase = .returned (.ok result)) :
    ∃ entries : List StoredEntry,
      world.files.openAt (Store.dataPath job.directory) =
        .ok (.file (StoredEntry.encodeAll entries)) ∧
      result.manifest.digest = Sha256.hash (StoredEntry.encodeAll entries) ∧
      (∃ dealt : List (Nat × StoredEntry), dealt.map Prod.snd = entries ∧
        ∀ id path, itemsAt StoredEntry.path path (shareOf id dealt) =
          itemsAt StoredEntry.path path
            ((shareOf id log).filterMap job.extraction.entry?)) ∧
      (job.settings.workers = 1 → entries = stableSort StoredEntry.path
        ((batches.flatMap RecordBatch.records).filterMap job.extraction.entry?)) ∧
      ((((batches.flatMap RecordBatch.records).filterMap job.extraction.entry?).map
          StoredEntry.path).Nodup →
        ∀ {τ : Type} [RecordSource τ] {other : Job τ} {assured' : Prop} {files₀' : Files}
          {actions' : List Action} {log' : List (Nat × Record)} {world' : World τ}
          {batches' : List RecordBatch} {failure' : Option Error} {result' : RunResult},
          other.Reaches assured' files₀' actions' log' world' → other.settings.Stands →
          files₀'.IsProper →
          RecordSource.Yields other.request other.source batches' failure' →
          world'.dump.coordinator.phase = .returned (.ok result') →
          other.extraction = job.extraction →
          (batches'.flatMap RecordBatch.records).Perm (batches.flatMap RecordBatch.records) →
          world'.files.openAt (Store.dataPath other.directory) =
              .ok (.file (StoredEntry.encodeAll entries)) ∧
            result'.manifest.digest = result.manifest.digest) := by
  obtain ⟨-, submitted, settles, publishes, -, describes, -⟩ :=
    reached.publishes stands.isSized proper finite returned
  refine ⟨_, publishes.openAt_data, describes.digest, settles.exists_dealt, fun alone => ?_, ?_⟩
  · rw [settles.entries_eq alone]
  · intro distinct τ _ other assured' files₀' actions' log' world' batches' failure' result' reached'
      stands' proper' finite' returned' extraction records
    obtain ⟨-, submitted', settles', publishes', -, describes', -⟩ :=
      reached'.publishes stands'.isSized proper' finite' returned'
    have perm : (submitted'.map Prod.snd).flatten.Perm (submitted.map Prod.snd).flatten := by
      refine settles'.entries_perm.trans ?_
      rw [extraction]
      exact (records.filterMap _).trans settles.entries_perm.symm
    have apart : ((submitted'.map Prod.snd).flatten.map StoredEntry.path).Nodup :=
      ((perm.trans settles.entries_perm).map _).nodup_iff.mpr distinct
    have same := stableSort_eq_of_perm perm apart
    refine ⟨?_, ?_⟩
    · rw [← same]
      exact publishes'.openAt_data
    · rw [describes.digest, describes'.digest, same]

/-- The small job with one worker leaves the stable sort of its one entry, and with two workers it
leaves the same bytes. -/
theorem Job.small_keeps_order : ∃ entries : List StoredEntry,
    entries = stableSort StoredEntry.path
      (Job.fewRecords.filterMap fun record => Extraction.entry? (Job.small 1).extraction record) ∧
    (Job.smallWorld 1 60).files.openAt (Store.dataPath "store") =
      .ok (.file (StoredEntry.encodeAll entries)) ∧
    (Job.smallWorld 2 60).files.openAt (Store.dataPath "store") =
      .ok (.file (StoredEntry.encodeAll entries)) := by
  obtain ⟨actions, log, result, reached, returned⟩ := Job.small_alone_ends
  obtain ⟨actions', log', result', reached', returned'⟩ := Job.small_ends
  have proper : Files.IsProper {} := ⟨nofun, nofun⟩
  obtain ⟨entries, bytes, -, -, alone, others⟩ :=
    reached.keeps_order Job.small_alone_stands proper (Job.small_yields 1) returned
  have distinct : (([RecordBatch.ofRecords Job.fewRecords].flatMap
      RecordBatch.records).filterMap fun record =>
        Extraction.entry? (Job.small 1).extraction record).map StoredEntry.path = ["/a"] := by
    decide +kernel
  refine ⟨entries, alone rfl, bytes, ?_⟩
  refine (others ?_ reached' Job.small_stands proper (Job.small_yields 2) returned' rfl
    (.refl _)).1
  rw [distinct]
  decide

end TreeExport

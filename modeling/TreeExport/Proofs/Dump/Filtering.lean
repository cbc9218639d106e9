import TreeExport.Proofs.Dump.Blame
import TreeExport.Proofs.Dump.Outcome
import TreeExport.Proofs.Source.Serving

/-!
# Filters early or late

A job may leave it to its source to hold back the records that its path filters turn down, or ask
for all records and turn those down itself (`Job.filterLate`).  A filter has no say in records whose
id names no place, and a record that is held back would have been turned down without a fault; so
both ways there are the same faults and the same entries, and the runs end alike
(`Job.Reaches.filters_alike`).
-/

namespace TreeExport

/-! ## One record -/

namespace Extraction

/-- An extraction that wants a path only if the filters of a request let it through. -/
def within (extraction : Extraction) (request : BatchRequest) : Extraction :=
  { extraction with wants := fun path => extraction.wants path && request.accepts path }

variable {extraction : Extraction} {request : BatchRequest} {record : Record}

/-- Nothing changes for a record that a request lets through. -/
theorem judge_within (accepted : request.acceptsRecord record = true) :
    (extraction.within request).judge record = extraction.judge record := by
  unfold judge
  cases located : record.locate with
  | error fault => rfl
  | ok place =>
    cases place with
    | split => rfl
    | node path =>
      have here : request.accepts path = true := by
        simpa only [BatchRequest.acceptsRecord, located] using accepted
      simp only [within, here, Bool.and_true]

/-- What a request holds back is a node, and one that is turned down. -/
theorem judge_within_isRejection (held : request.acceptsRecord record = false)
    (extraction : Extraction) :
    ((extraction.within request).judge record).isRejection = true := by
  unfold judge
  cases located : record.locate with
  | error fault => simp only [BatchRequest.acceptsRecord, located, reduceCtorEq] at held
  | ok place =>
    cases place with
    | split => simp only [BatchRequest.acceptsRecord, located, reduceCtorEq] at held
    | node path =>
      have here : request.accepts path = false := by
        simpa only [BatchRequest.acceptsRecord, located] using held
      simp only [within, here, Bool.and_false, Bool.not_false, if_true]
      split
      · rfl
      · split <;> rfl

/-- The entries are those of the records that the request lets through. -/
theorem entry?_within (extraction : Extraction) (request : BatchRequest) (record : Record) :
    Extraction.entry? (extraction.within request) record =
      if request.acceptsRecord record then extraction.entry? record else none := by
  split
  · next accepted =>
    unfold entry?
    rw [judge_within accepted]
    rfl
  · next held =>
    have rejection := judge_within_isRejection (Bool.eq_false_iff.mpr held) extraction
    refine entry?_eq_none fun path verdict => ?_
    rw [verdict] at rejection
    cases rejection

/-- The faults are those of the records that the request lets through. -/
theorem fault?_within (extraction : Extraction) (request : BatchRequest) (record : Record)
    (capacity maxEntries : Nat) :
    (extraction.within request).fault? capacity maxEntries record =
      if request.acceptsRecord record then extraction.fault? capacity maxEntries record
      else none := by
  split
  · next accepted =>
    unfold fault?
    rw [judge_within accepted]
    rfl
  · next held =>
    have rejection := judge_within_isRejection (Bool.eq_false_iff.mpr held) extraction
    refine fault?_eq_none (fun fault verdict => ?_) fun path verdict => ?_
    · rw [verdict] at rejection
      cases rejection
    · rw [verdict] at rejection
      cases rejection

variable {records : List Record} {capacity maxEntries : Nat}

theorem filterMap_entry?_within (extraction : Extraction) (request : BatchRequest)
    (records : List Record) :
    records.filterMap (fun record => Extraction.entry? (extraction.within request) record) =
      (records.filter request.acceptsRecord).filterMap extraction.entry? := by
  rw [List.filterMap_filter]
  exact List.filterMap_congr fun record _ => entry?_within extraction request record

theorem faultless_within_iff :
    (∀ record ∈ records, (extraction.within request).fault? capacity maxEntries record = none) ↔
      ∀ record ∈ records.filter request.acceptsRecord,
        extraction.fault? capacity maxEntries record = none := by
  simp only [fault?_within, List.mem_filter, ite_eq_right_iff, and_imp]

end Extraction

/-- No filter holds back a record whose id names no place. -/
theorem BatchRequest.acceptsRecord_of_fault (request : BatchRequest) {record : Record}
    {fault : Record.IdFault} (located : record.locate = .error fault) :
    request.acceptsRecord record = true := by
  simp only [acceptsRecord, located]

/-! ## A run -/

namespace Job

variable {job : Job Source} {assured : Prop} {files₀ : Files} {actions : List Action}
  {log : List (Nat × Record)} {world : World Source} {answer : Except Error RunResult}
  {result : RunResult}

/-- The job with the filters of its request moved to what it makes of records. -/
def filterLate (job : Job Source) : Job Source :=
  { job with filters := [], extraction := job.extraction.within job.request }

/-- The records that a job gets from its source, if that does not fail. -/
def arrivals (job : Job Source) : List Record :=
  (job.source.left.flatten.map Prod.fst).filter job.request.acceptsRecord

/-- There is nothing wrong with the records that a job gets, nor with its source. -/
structure IsFaultless (job : Job Source) : Prop where
  whole : job.source.IsWhole
  records : ∀ record ∈ job.arrivals, job.extraction.fault? job.settings.budget.bufferBytes
    job.settings.budget.entriesPerBuffer record = none

/-- Without filters all records arrive. -/
theorem arrivals_filterLate (job : Job Source) :
    job.filterLate.arrivals = job.source.left.flatten.map Prod.fst := by
  refine List.filter_eq_self.mpr fun record _ => ?_
  unfold BatchRequest.acceptsRecord
  split <;> rfl

/-- Filters make the same entries, early or late. -/
theorem entries_filterLate (job : Job Source) :
    job.filterLate.arrivals.filterMap job.filterLate.extraction.entry? =
      job.arrivals.filterMap job.extraction.entry? := by
  rw [arrivals_filterLate]
  exact Extraction.filterMap_entry?_within job.extraction job.request _

/-- Filters leave the same faults, early or late. -/
theorem isFaultless_filterLate_iff : job.filterLate.IsFaultless ↔ job.IsFaultless := by
  have records : (∀ record ∈ job.filterLate.arrivals,
      (job.extraction.within job.request).fault? job.settings.budget.bufferBytes
        job.settings.budget.entriesPerBuffer record = none) ↔
      ∀ record ∈ job.arrivals, job.extraction.fault? job.settings.budget.bufferBytes
        job.settings.budget.entriesPerBuffer record = none := by
    rw [arrivals_filterLate]
    exact Extraction.faultless_within_iff
  exact ⟨fun late => ⟨late.whole, records.mp late.records⟩,
    fun early => ⟨early.whole, records.mpr early.records⟩⟩

/-- What a job gets, if its source does not fail. -/
theorem exists_yields_arrivals (stands : job.settings.Stands) : ∃ batches failure,
    RecordSource.Yields job.request job.source batches failure ∧
      (failure = none ↔ job.source.IsWhole) ∧
      (failure = none → batches.flatMap RecordBatch.records = job.arrivals) :=
  (Source.serves stands.batchDocuments_pos).exists_yields job.source

/-- A run that ends well has met with no fault, and leaves the entries of all records that the job
has got. -/
theorem Reaches.stores_arrivals (reached : job.Reaches assured files₀ actions log world)
    (stands : job.settings.Stands) (proper : files₀.IsProper)
    (returned : world.dump.coordinator.phase = .returned (.ok result)) :
    job.IsFaultless ∧ ∃ entries : List StoredEntry,
      (∀ time, (Store.Reader.entries ⟨job.directory, result.manifest⟩).runOn time world.files =
        (.ok ⟨Store.dataPath job.directory, entries, none⟩, world.files)) ∧
      world.files.openAt (Store.dataPath job.directory) =
        .ok (.file (StoredEntry.encodeAll entries)) ∧
      result.manifest.digest = Sha256.hash (StoredEntry.encodeAll entries) ∧
      entries.Perm (job.arrivals.filterMap job.extraction.entry?) ∧
      (job.settings.workers = 1 → entries = stableSort StoredEntry.path
        (job.arrivals.filterMap job.extraction.entry?)) := by
  obtain ⟨batches, failure, finite, ended, all⟩ := exists_yields_arrivals stands
  obtain ⟨well, submitted, settles, publishes, short, describes, -⟩ :=
    reached.publishes stands.isSized proper finite returned
  rw [all well] at settles
  have shortSorted : ∀ entry ∈ stableSort StoredEntry.path (submitted.map Prod.snd).flatten,
      entry.IsShort := fun entry member => short entry (mem_stableSort.mp member)
  refine ⟨⟨ended.mp well, settles.faultless⟩, _, fun time => publishes.reads shortSorted rfl,
    publishes.openAt_data, describes.digest, (stableSort_perm _).trans settles.entries_perm,
    fun alone => ?_⟩
  rw [settles.entries_eq alone]

/-- A run whose operations on files succeed ends well if there is no fault. -/
theorem Reaches.ends_well (reached : job.Reaches assured files₀ actions log world) (sure : assured)
    (stands : job.settings.Stands) (proper : files₀.IsProper)
    (returned : world.dump.coordinator.phase = .returned answer)
    (faultless : job.IsFaultless) : ∃ result, answer = .ok result := by
  rw [eq_true sure] at reached
  cases answer with
  | ok result => exact ⟨result, rfl⟩
  | error outcome =>
    obtain ⟨batches, failure, finite, ended, all⟩ := exists_yields_arrivals stands
    have well := ended.mpr faultless.whole
    have given : world.dump.coordinator.cause? = some outcome := by
      simp only [Coordinator.cause?, returned]
    obtain ⟨stage, cause, -, reason⟩ := reached.exists_reason stands.isSized proper finite given
    cases reason with
    | source failed => cases well.symm.trans failed
    | record taken downloaded fault =>
      rw [all well] at downloaded
      cases (faultless.records _ downloaded).symm.trans fault

/-- A record whose id names no place is a fault of the job. -/
theorem not_isFaultless {record : Record} {fault : Record.IdFault}
    (member : record ∈ job.source.left.flatten.map Prod.fst)
    (located : record.locate = .error fault) : ¬ job.IsFaultless := by
  intro faultless
  have arrives : record ∈ job.arrivals :=
    List.mem_filter.mpr ⟨member, job.request.acceptsRecord_of_fault located⟩
  cases (faultless.records record arrives).symm.trans
    (Extraction.fault?_of_malformed (Extraction.judge_of_fault located))

/-- Whatever the order of their steps, a run with filters in its request and one that leaves the
filters to what it makes of records end alike.  Either both end well or neither does, as long as
operations on files succeed.  Where both do, their stores hold the same entries, each as often, and
where one worker is alone the same bytes.  A record whose id names no place passes every filter, and
neither run ends well with it. -/
theorem Reaches.filters_alike {filesLate₀ : Files} {actionsLate : List Action}
    {logLate : List (Nat × Record)} {worldLate : World Source}
    {answerLate : Except Error RunResult}
    (reached : job.Reaches assured files₀ actions log world)
    (late : job.filterLate.Reaches assured filesLate₀ actionsLate logLate worldLate)
    (stands : job.settings.Stands) (proper : files₀.IsProper) (properLate : filesLate₀.IsProper)
    (returned : world.dump.coordinator.phase = .returned answer)
    (returnedLate : worldLate.dump.coordinator.phase = .returned answerLate) :
    (assured → ((∃ result, answer = .ok result) ↔ ∃ result, answerLate = .ok result)) ∧
    (∀ result resultLate, answer = .ok result → answerLate = .ok resultLate →
      ∃ entries entriesLate : List StoredEntry,
        (∀ time, (Store.Reader.entries ⟨job.directory, result.manifest⟩).runOn time world.files =
          (.ok ⟨Store.dataPath job.directory, entries, none⟩, world.files)) ∧
        (∀ time, (Store.Reader.entries ⟨job.directory, resultLate.manifest⟩).runOn time
            worldLate.files =
          (.ok ⟨Store.dataPath job.directory, entriesLate, none⟩, worldLate.files)) ∧
        entries.Perm entriesLate ∧
        (job.settings.workers = 1 → ∃ bytes,
          world.files.openAt (Store.dataPath job.directory) = .ok (.file bytes) ∧
          worldLate.files.openAt (Store.dataPath job.directory) = .ok (.file bytes) ∧
          result.manifest.digest = resultLate.manifest.digest)) ∧
    ∀ record ∈ job.source.left.flatten.map Prod.fst,
      (∃ fault, record.locate = .error fault) →
        (∀ request : BatchRequest, request.acceptsRecord record = true) ∧
        (∃ cause, answer = .error cause) ∧ ∃ cause, answerLate = .error cause := by
  have early {result : RunResult} (well : answer = .ok result) :=
    reached.stores_arrivals stands proper (well ▸ returned)
  have later {result : RunResult} (well : answerLate = .ok result) :=
    late.stores_arrivals stands properLate (well ▸ returnedLate)
  refine ⟨fun sure => ⟨?_, ?_⟩, fun result resultLate well wellLate => ?_,
    fun record member ⟨fault, located⟩ => ⟨fun request => request.acceptsRecord_of_fault located,
      ?_, ?_⟩⟩
  · rintro ⟨result, well⟩
    exact late.ends_well sure stands properLate returnedLate
      (isFaultless_filterLate_iff.mpr (early well).1)
  · rintro ⟨result, well⟩
    exact reached.ends_well sure stands proper returned
      (isFaultless_filterLate_iff.mp (later well).1)
  · obtain ⟨-, entries, reads, bytes, digest, perm, alone⟩ := early well
    obtain ⟨-, entriesLate, readsLate, bytesLate, digestLate, permLate, aloneLate⟩ := later wellLate
    rw [entries_filterLate] at permLate aloneLate
    refine ⟨entries, entriesLate, reads, readsLate, perm.trans permLate.symm, fun one => ?_⟩
    have same : entriesLate = entries := (aloneLate one).trans (alone one).symm
    rw [same] at bytesLate digestLate
    exact ⟨_, bytes, bytesLate, digest.trans digestLate.symm⟩
  · cases answer with
    | ok result => exact absurd (early rfl).1 (not_isFaultless member located)
    | error cause => exact ⟨cause, rfl⟩
  · cases answerLate with
    | ok result =>
      exact absurd (isFaultless_filterLate_iff.mp (later rfl).1) (not_isFaultless member located)
    | error cause => exact ⟨cause, rfl⟩

/-- A job with one worker and two nodes, one of which its filter holds back. -/
def selective : Job Source :=
  { small 1 with
    source := .predefined { lists := [[.node "/a" [], .node "/b" []]] }
    filters := [{ excluded := ["/b"] }] }

/-- The parties of a job act in turns. -/
def takesTurns (job : Job Source) : Program (Dump Source) :=
  Dump.takeRounds job 60 (.start job { directory := "store" } ⟨0, 0⟩)

theorem exists_reaches_ok (here : job.directory = "store")
    (steady : Program.Steady ⟨0, 0⟩ job.takesTurns smallFiles)
    (ended : ((job.takesTurns.run ⟨0, 0⟩ smallFiles).1.result?.any fun result => result.toBool) =
      true) :
    ∃ actions log world result, job.Reaches True {} actions log world ∧
      world.dump.coordinator.phase = .returned (.ok result) := by
  obtain ⟨result, returned⟩ := exists_of_result?_any _ ended
  have opens : (Store.Writer.openAt job.directory).runOn ⟨0, 0⟩ {} =
      (.ok { directory := "store" }, smallFiles) := by
    rw [here, smallFiles_opened]
  have opened : job.Reaches True {} [] []
      ⟨.start job { directory := "store" } ⟨0, 0⟩, smallFiles⟩ :=
    .opened ⟨0, 0⟩ ⟨0, 0⟩ opens
  obtain ⟨actions, log, reached⟩ := opened.takeRounds 60 fun _ => steady
  exact ⟨actions, log, _, result, reached, returned⟩

/-- With the filter in its request and without, the job leaves the same bytes. -/
theorem selective_filters_alike : ∃ actions log world actionsLate logLate worldLate bytes,
    selective.Reaches True {} actions log world ∧
      selective.filterLate.Reaches True {} actionsLate logLate worldLate ∧
      world.files.openAt "store/entries.dat" = .ok (.file bytes) ∧
      worldLate.files.openAt "store/entries.dat" = .ok (.file bytes) := by
  obtain ⟨actions, log, world, result, reached, returned⟩ :=
    exists_reaches_ok (show selective.directory = "store" from rfl) (by decide +kernel)
      (by decide +kernel)
  obtain ⟨actionsLate, logLate, worldLate, resultLate, late, returnedLate⟩ :=
    exists_reaches_ok (show selective.filterLate.directory = "store" from rfl) (by decide +kernel)
      (by decide +kernel)
  have proper : Files.IsProper {} := ⟨nofun, nofun⟩
  obtain ⟨-, alike, -⟩ :=
    reached.filters_alike late small_alone_stands proper proper returned returnedLate
  obtain ⟨entries, entriesLate, -, -, -, alone⟩ := alike result resultLate rfl rfl
  obtain ⟨bytes, here, there, -⟩ := alone rfl
  exact ⟨actions, log, world, actionsLate, logLate, worldLate, bytes, reached, late, here, there⟩

end Job

end TreeExport

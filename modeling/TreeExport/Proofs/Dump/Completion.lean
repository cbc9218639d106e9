import TreeExport.Proofs.Dump.Flow
import TreeExport.Proofs.Dump.Relay
import TreeExport.Proofs.Store.Manifests

/-!
# Runs that end well

Once the coordinator has seen all stages end, nothing is on its way any more: all records have been
taken up, and all that they became has been submitted and stored (`Dump.Flows.settles`).  So a run
that returns well has published just that (`Job.Reaches.publishes`).
-/

namespace TreeExport

variable {σ : Type}

/-! ## All stages have ended -/

namespace Dump

/-- All stages have ended well. -/
structure IsDone (dump : Dump σ) : Prop where
  download : dump.download.phase = .finished
  workers : ∀ worker ∈ dump.workers, worker.phase = .finished
  storer : dump.storer.phase = .finished

variable {dump after : Dump σ} {job : Job σ}

theorem Knows.isDone (knows : dump.Knows) (none : dump.coordinator.outstanding = []) :
    dump.IsDone := by
  have seen (stage : Stage) : dump.HasSeen stage := by
    rw [HasSeen, none]
    exact List.not_mem_nil
  obtain ⟨done, joined⟩ := knows.workers
  exact ⟨knows.download (seen _),
    fun worker member => joined.finished worker (joined.all worker member (seen _)),
    knows.storer (seen _)⟩

theorem IsDone.isWell (done : dump.IsDone) : dump.IsWell := by
  refine ⟨fun cause failed => ?_, fun worker member cause failed => ?_, fun cause failed => ?_⟩
  · cases done.download.symm.trans failed
  · cases (done.workers worker member).symm.trans failed
  · cases done.storer.symm.trans failed

/-- Once all stages have ended the coordinator has gathered from all workers. -/
theorem Knows.exists_perm (knows : dump.Knows) (nodup : dump.workers.Nodup)
    (none : dump.coordinator.outstanding = []) :
    ∃ done, dump.HasJoined done ∧ done.Perm dump.workers := by
  have seen (stage : Stage) : dump.HasSeen stage := by
    rw [HasSeen, none]
    exact List.not_mem_nil
  have count := knows.count_eq nodup fun worker _ => seen _
  obtain ⟨done, joined⟩ := knows.workers
  have within : List.Subperm done dump.workers := joined.nodup.subperm joined.mem
  exact ⟨done, joined, within.perm_of_length_le (Nat.le_of_eq (count.symm.trans joined.count))⟩

/-- What the coordinator has added up is what all workers have counted. -/
theorem Knows.sums (knows : dump.Knows) (nodup : dump.workers.Nodup)
    (none : dump.coordinator.outstanding = []) :
    dump.coordinator.extracted = total (dump.workers.map (·.statistics.accepted)) ∧
      dump.coordinator.statistics.processed =
        total (dump.workers.map (·.statistics.processed)) := by
  obtain ⟨done, joined, perm⟩ := knows.exists_perm nodup none
  rw [joined.extracted, joined.processed]
  exact ⟨total_perm (perm.map _), total_perm (perm.map _)⟩

end Dump

variable [RecordSource σ]

/-- Once all stages have ended nobody but the coordinator can do anything. -/
theorem Dump.IsDone.coordinates {job : Job σ} {assured : Prop} {time : Moment}
    {dump after : Dump σ} {files changed : Files} {action : Action} (done : dump.IsDone)
    (step : Moves job assured time dump files action after changed) :
    (∃ stage, dump.Joins stage after) ∨ dump.Coordinates assured time files after changed := by
  cases step with
  | download step => exact absurd done.download step.phase_ne_finished
  | worker here step =>
    exact absurd (done.workers _ (List.mem_of_getElem? here)) step.phase_ne_finished
  | storer step => exact absurd done.storer step.phase_ne_finished
  | join step => exact .inl ⟨_, step⟩
  | coordinate step => exact .inr step

/-- Once the coordinator has returned too, nothing happens any more. -/
theorem Dump.IsDone.goesOn {job : Job σ} {assured : Prop} {time : Moment} {dump after : Dump σ}
    {files changed : Files} {action : Action} (done : dump.IsDone)
    (step : Moves job assured time dump files action after changed) :
    ∀ result, dump.coordinator.phase ≠ .returned result := by
  intro result returned
  rcases done.coordinates step with ⟨stage, joins⟩ | coordinates
  · cases joins <;> cases returned.symm.trans ‹dump.coordinator.phase = _›
  · cases coordinates <;> cases returned.symm.trans ‹dump.coordinator.phase = _›

/-- A calm coordinator before whom something happens has not returned. -/
theorem Dump.Moves.goesOn_of_calm {job : Job σ} {assured : Prop} {time : Moment}
    {dump after : Dump σ} {files changed : Files} {action : Action}
    (step : Moves job assured time dump files action after changed)
    (calm : dump.coordinator.IsCalm) (knows : dump.Knows) :
    ∀ result, dump.coordinator.phase ≠ .returned result := by
  intro result returned
  cases result with
  | error cause => simp only [Coordinator.IsCalm, returned] at calm
  | ok result =>
    have next := knows.next
    simp only [IsAtNext, returned] at next
    exact (knows.isDone next).goesOn step _ returned

/-! ## What has been made of the records -/

/-- Entries by the workers that have submitted them, in order. -/
def markedEntries (submitted : List (Nat × List StoredEntry)) : List (Nat × StoredEntry) :=
  submitted.flatMap fun deal => deal.2.map fun entry => (deal.1, entry)

theorem map_snd_markedEntries (submitted : List (Nat × List StoredEntry)) :
    (markedEntries submitted).map Prod.snd = (submitted.map Prod.snd).flatten := by
  induction submitted with
  | nil => rfl
  | cons deal submitted ih =>
    rw [markedEntries, List.flatMap_cons, List.map_append, List.map_map]
    exact congrArg₂ _ (List.map_id _) ih

/-- The workers have taken up all records and submitted all entries that these become. -/
structure Job.Settles (job : Job σ) (all : List Record) (log : List (Nat × Record))
    (submitted : List (Nat × List StoredEntry)) : Prop where
  takers : IsDealtTo job.settings.workers log
  senders : IsDealtTo job.settings.workers submitted
  taken : ∃ received : List (Nat × Record), IsDealtTo job.settings.workers received ∧
    received.map Prod.snd = all ∧ ∀ id, shareOf id log = shareOf id received
  entries : ∀ id, (shareOf id submitted).flatten =
    (shareOf id log).filterMap job.extraction.entry?
  faultless : ∀ record ∈ all, job.extraction.fault? job.settings.budget.bufferBytes
    job.settings.budget.entriesPerBuffer record = none

namespace Job.Settles

variable {job : Job σ} {all : List Record} {log : List (Nat × Record)}
  {submitted : List (Nat × List StoredEntry)}

omit [RecordSource σ] in
theorem log_perm (settles : job.Settles all log submitted) : (log.map Prod.snd).Perm all := by
  obtain ⟨received, -, rfl, same⟩ := settles.taken
  exact (perm_of_shareOf same).map _

omit [RecordSource σ] in
/-- A worker that is alone takes up all records in the order of the source. -/
theorem log_eq (settles : job.Settles all log submitted) (alone : job.settings.workers = 1) :
    log.map Prod.snd = all := by
  obtain ⟨received, within, rfl, same⟩ := settles.taken
  have one := same 0
  rwa [(settles.takers.mono alone.symm).shareOf_zero, (within.mono alone.symm).shareOf_zero] at one

omit [RecordSource σ] in
theorem shareOf_markedEntries (settles : job.Settles all log submitted) (id : Nat) :
    shareOf id (markedEntries submitted) =
      (shareOf id log).filterMap job.extraction.entry? := by
  rw [markedEntries, shareOf_flatMap, settles.entries]

omit [RecordSource σ] in
theorem entries_perm (settles : job.Settles all log submitted) :
    (submitted.map Prod.snd).flatten.Perm (all.filterMap job.extraction.entry?) := by
  have shares (id : Nat) : shareOf id (markedEntries submitted) = shareOf id
      (log.filterMap fun deal => ( job.extraction.entry? deal.2).map fun entry =>
        (deal.1, entry)) := by
    rw [settles.shareOf_markedEntries, shareOf_filterMap]
  have marked := (perm_of_shareOf shares).map Prod.snd
  rw [map_snd_markedEntries, List.map_filterMap] at marked
  refine marked.trans ?_
  have same : (log.filterMap fun deal => (( job.extraction.entry? deal.2).map fun entry =>
      (deal.1, entry)).map Prod.snd) = (log.map Prod.snd).filterMap job.extraction.entry? := by
    rw [List.filterMap_map]
    refine List.filterMap_congr fun deal _ => ?_
    rw [Option.map_map]
    exact Option.map_id' ..
  rw [same]
  exact settles.log_perm.filterMap _

omit [RecordSource σ] in
/-- The entries of a worker that is alone come in the order of the source. -/
theorem entries_eq (settles : job.Settles all log submitted) (alone : job.settings.workers = 1) :
    (submitted.map Prod.snd).flatten = all.filterMap job.extraction.entry? := by
  have one := settles.entries 0
  rwa [(settles.senders.mono alone.symm).shareOf_zero,
    (settles.takers.mono alone.symm).shareOf_zero, settles.log_eq alone] at one

end Job.Settles

/-! ## When all is done -/

/-- What a worker accounts for that has ended well and was not stopped. -/
theorem Worker.Accounts.finished {extraction : Extraction} {capacity maxEntries : Nat}
    {worker : Worker} {received taken : List Record} {sent : List (List StoredEntry)}
    (accounts : worker.Accounts extraction capacity maxEntries received taken sent)
    (shaped : worker.IsShaped) (clear : worker.cancelled = false)
    (phase : worker.phase = .finished) :
    received = taken ∧ taken.filterMap extraction.entry? = sent.flatten ∧
      (∀ record ∈ taken, extraction.fault? capacity maxEntries record = none) ∧
      worker.statistics.processed = taken.length ∧
      worker.statistics.accepted = (taken.filterMap extraction.entry?).length := by
  have well : worker.IsWell := fun cause failed => by cases phase.symm.trans failed
  simp only [Worker.IsShaped, phase] at shaped
  have settled : worker.settled taken = taken := by
    simp only [Worker.settled, Worker.pending?, phase]
  have load : worker.load = [] := by
    simp only [Worker.load, Worker.call?, phase, shaped]
    rfl
  obtain ⟨entries, faultless, accepted⟩ := accounts.balances well clear
  rw [settled] at entries faultless accepted
  rw [load, List.append_nil] at entries
  refine ⟨?_, entries, faultless, accounts.processed, accepted⟩
  rw [accounts.left well, Worker.left, phase, List.append_nil]

namespace Dump

variable {job : Job σ} {assured : Prop} {dump : Dump σ} {files : Files} {all : List Record}
  {failure : Option Error} {log received : List (Nat × Record)}
  {submitted : List (Nat × List StoredEntry)} {stored : List (List StoredEntry)}

omit [RecordSource σ] in
/-- Once all workers have seen the end of the stream there is no record in the raw queue. -/
theorem Relaying.records_eq_nil {batches : List RecordBatch} {marks stops : Nat}
    (relaying : dump.Relaying batches marks stops) (done : dump.IsDone) (workers : dump.workers ≠ []) :
    dump.shared.raw.records = [] := by
  obtain ⟨worker, member⟩ := List.exists_mem_of_ne_nil _ workers
  have sees : worker.sees ≤ total (dump.workers.map Worker.sees) := le_total_of_mem member
  simp only [Worker.sees, done.workers worker member] at sees
  have behind := relaying.behind.resolve_left fun unseen => by omega
  rw [Queue.records, relaying.items, behind.1, List.map_nil, List.nil_append]
  refine List.flatMap_eq_nil_iff.mpr fun item member => ?_
  rw [List.eq_of_mem_replicate member]
  rfl

omit [RecordSource σ] in
/-- Once sort-and-store has seen the end of input there is no full buffer in the queue. -/
theorem Stocking.filled_eq_nil {filled : List Buffer} {marks : Nat}
    (stocking : dump.Stocking job filled marks) (isOver : dump.storer.phase = .finished) :
    dump.shared.pool.filled = [] := by
  rw [Pool.filled, stocking.fulls, stocking.behind isOver, List.map_nil, List.nil_append]
  refine List.flatMap_eq_nil_iff.mpr fun item member => ?_
  rw [List.eq_of_mem_replicate member]
  rfl

omit [RecordSource σ] in
/-- What every worker has a number of adds up to the number of what is dealt out to all. -/
theorem total_workers {α : Type} {dealt : List (Nat × α)} (ends : dump.Ends job)
    (within : IsDealtTo job.settings.workers dealt) {count : Worker → Nat}
    (each : ∀ id worker, dump.workers[id]? = some worker →
      count worker = (shareOf id dealt).length) :
    total (dump.workers.map count) = dealt.length := by
  rw [← within.total_shares]
  congr 1
  refine List.ext_getElem? fun id => ?_
  rw [List.getElem?_map, List.getElem?_map]
  by_cases below : id < job.settings.workers
  · obtain ⟨worker, here⟩ : ∃ worker, dump.workers[id]? = some worker :=
      ⟨_, List.getElem?_eq_getElem (ends.length_eq ▸ below)⟩
    rw [here, List.getElem?_range below, Option.map_some, Option.map_some, each id _ here]
  · have beyond : dump.workers[id]? = none := by
      rw [List.getElem?_eq_none_iff, ends.length_eq]
      omega
    have outside : (List.range job.settings.workers)[id]? = none := by
      rw [List.getElem?_eq_none_iff, List.length_range]
      omega
    rw [beyond, outside]
    rfl

/-- Once all is done, the records that the source has handed out are settled, and the counts are
those of the records and of their entries. -/
theorem Flows.settles
    (flows : dump.Flows job assured all failure log files received submitted stored)
    (ends : dump.Ends job) (done : dump.IsDone) (clear : dump.IsClear)
    (workers : 0 < job.settings.workers) {batches : List RecordBatch} {marks stops : Nat}
    (relaying : dump.Relaying batches marks stops) {filled : List Buffer} {signals : Nat}
    (stocking : dump.Stocking job filled signals) :
    failure = none ∧ job.Settles all log submitted ∧ submitted.map Prod.snd = stored ∧
      dump.download.documents = all.length ∧
      total (dump.workers.map (·.statistics.processed)) = all.length ∧
      total (dump.workers.map (·.statistics.accepted)) =
        (submitted.map Prod.snd).flatten.length := by
  have some : dump.workers ≠ [] := by
    intro none
    have length := ends.length_eq
    rw [none, List.length_nil] at length
    omega
  have raw := relaying.records_eq_nil done some
  have download : dump.download.IsWell := fun cause failed => by
    cases done.download.symm.trans failed
  have storer : dump.storer.IsWell := fun cause failed => by cases done.storer.symm.trans failed
  have hand : dump.download.hand = [] := by simp only [Download.hand, done.download]
  have inHand : dump.storer.hand = [] := by simp only [Storer.hand, done.storer]
  obtain ⟨rest, expects, whole⟩ := flows.source
  simp only [Download.Expects, done.download] at expects
  obtain ⟨rfl, rfl⟩ := expects
  rw [raw, hand, List.append_nil, List.append_nil, List.append_nil] at whole
  have documents := flows.documents download
  rw [raw, hand, List.append_nil, List.append_nil, whole] at documents
  have queue := flows.queue storer
  rw [inHand, stocking.filled_eq_nil done.storer, List.append_nil, List.append_nil] at queue
  have takers := flows.takers.mono ends.length_eq.symm
  have receivers := flows.receivers.mono ends.length_eq.symm
  have senders := flows.senders.mono ends.length_eq.symm
  have facts (id : Nat) (worker : Worker) (here : dump.workers[id]? = .some worker) :=
    (flows.workers id worker here).finished (ends.shaped worker (List.mem_of_getElem? here))
      (clear.workers worker (List.mem_of_getElem? here))
      (done.workers worker (List.mem_of_getElem? here))
  have present (id : Nat) (below : id < job.settings.workers) :
      ∃ worker, dump.workers[id]? = .some worker :=
    ⟨_, List.getElem?_eq_getElem (ends.length_eq ▸ below)⟩
  have same (id : Nat) : shareOf id log = shareOf id received := by
    by_cases below : id < job.settings.workers
    · obtain ⟨worker, here⟩ := present id below
      exact (facts id worker here).1.symm
    · rw [takers.shareOf_eq_nil (Nat.not_lt.mp below),
        receivers.shareOf_eq_nil (Nat.not_lt.mp below)]
  have perm : (log.map Prod.snd).Perm all := whole ▸ (perm_of_shareOf same).map _
  have settles : job.Settles all log submitted := by
    refine ⟨takers, senders, ⟨received, receivers, whole, same⟩, fun id => ?_, ?_⟩
    · by_cases below : id < job.settings.workers
      · obtain ⟨worker, here⟩ := present id below
        exact (facts id worker here).2.1.symm
      · rw [takers.shareOf_eq_nil (Nat.not_lt.mp below),
          senders.shareOf_eq_nil (Nat.not_lt.mp below)]
        rfl
    · intro record member
      obtain ⟨⟨id, _⟩, deal, rfl⟩ := List.mem_map.mp (perm.mem_iff.mpr member)
      obtain ⟨worker, here⟩ := present id (takers _ deal)
      exact (facts id worker here).2.2.1 _ (mem_shareOf.mpr deal)
  refine ⟨rfl, settles, queue, documents, ?_, ?_⟩
  · rw [total_workers ends takers fun id worker here => (facts id worker here).2.2.2.1,
      ← perm.length_eq, List.length_map]
  · have marked : IsDealtTo job.settings.workers (markedEntries submitted) := by
      intro deal member
      obtain ⟨sent, there, inside⟩ := List.mem_flatMap.mp member
      obtain ⟨entry, _, rfl⟩ := List.mem_map.mp inside
      exact senders sent there
    rw [← map_snd_markedEntries, List.length_map]
    refine total_workers ends marked fun id worker here => ?_
    obtain ⟨-, entries, -, -, accepted⟩ := facts id worker here
    rw [accepted, entries, markedEntries, shareOf_flatMap]

end Dump

/-! ## Closing the store -/

/-- A run comes to a good end by closing the store. -/
theorem Dump.Moves.of_returned_ok {job : Job σ} {assured : Prop} {time : Moment}
    {dump after : Dump σ} {files changed : Files} {action : Action} {result : RunResult}
    (step : Moves job assured time dump files action after changed)
    (returned : after.coordinator.phase = .returned (.ok result)) :
    dump.coordinator.phase = .returned (.ok result) ∨
      dump.coordinator.phase = .closing ∧ action = .coordinate ∧
        ∃ downloaded stored writer manifest,
        dump.coordinator.downloaded = some downloaded ∧
          dump.coordinator.stored = some (stored, writer) ∧
          writer.close.runOn time files = (.ok manifest, changed) ∧
          result =
            { directory := writer.directory
              manifest := manifest
              downloaded := downloaded
              extracted := dump.coordinator.extracted
              stored := stored
              statistics := dump.coordinator.statistics
              elapsed := Moment.elapsed dump.started time } := by
  cases step with
  | join step =>
    cases step with
    | download phase | worker phase => cases returned.symm.trans phase
    | _ => cases returned
  | coordinate step =>
    cases step with
    | closed phase first last done =>
      cases returned
      exact .inr ⟨phase, rfl, _, _, _, _, first, last, done, rfl⟩
    | _ => cases returned
  | _ => exact .inl returned

variable {job : Job σ} {assured : Prop} {files₀ : Files} {actions : List Action}
  {log : List (Nat × Record)} {world : World σ} {batches : List RecordBatch}
  {failure : Option Error}

/-- No step takes up a name that is none. -/
theorem Job.Reaches.isProper (reached : job.Reaches assured files₀ actions log world)
    (proper : files₀.IsProper) : world.files.IsProper := by
  induction reached with
  | opened time started opens =>
    obtain ⟨-, -, -, kept, -⟩ := Store.Writer.openAt_ok opens
    exact kept proper
  | step before step ih =>
    cases step with
    | mk time possible steady => exact Program.run_isProper time _ ih

/-- Once the coordinator is about to close the store, all records are settled; and closing it, which
does succeed if every operation on files does, publishes the stable sort of the entries that they
become. -/
theorem Job.Reaches.closes (reached : job.Reaches assured files₀ actions log world)
    (sized : job.settings.IsSized) (proper : files₀.IsProper)
    (finite : RecordSource.Yields job.request job.source batches failure)
    (phase : world.dump.coordinator.phase = .closing) :
    failure = none ∧ ∃ submitted,
      job.Settles (batches.flatMap RecordBatch.records) log submitted ∧
      (∀ entry ∈ (submitted.map Prod.snd).flatten, entry.IsShort) ∧
      world.dump.coordinator.downloaded = some (batches.flatMap RecordBatch.records).length ∧
      world.dump.coordinator.statistics.processed =
        (batches.flatMap RecordBatch.records).length ∧
      world.dump.coordinator.extracted = (submitted.map Prod.snd).flatten.length ∧
      ∃ writer, world.dump.coordinator.stored =
          some ((submitted.map Prod.snd).flatten.length, writer) ∧
        ∀ time, writer.close.Achieves time world.files fun manifest after =>
          Store.Publishes after job.directory manifest
              (stableSort StoredEntry.path (submitted.map Prod.snd).flatten) ∧
            manifest.Describes (stableSort StoredEntry.path (submitted.map Prod.snd).flatten) := by
  have calm : world.dump.coordinator.IsCalm := by simp only [Coordinator.IsCalm, phase]
  have knows := reached.knows calm
  have next := knows.next
  simp only [Dump.IsAtNext, phase] at next
  have done := knows.isDone next
  have seen (stage : Stage) : world.dump.HasSeen stage := by
    rw [Dump.HasSeen, next]
    exact List.not_mem_nil
  obtain ⟨received, submitted, lists, flows⟩ :=
    reached.flows sized finite fun result other => by cases phase.symm.trans other
  obtain ⟨_, _, _, relaying⟩ := reached.relaying
  obtain ⟨_, _, stocking, -⟩ := reached.stocking sized.workers
  obtain ⟨ended, settles, rfl, documents, processed, accepted⟩ :=
    flows.settles reached.ends done (reached.isClear calm) sized.workers relaying stocking
  have well := done.isWell.storer
  have keeps := flows.storer.keeps well
  have directory := flows.directory
  -- what the coordinator has noted is what the stages have come to
  obtain ⟨extracted, statistics⟩ := knows.sums reached.ends.nodup next
  refine ⟨ended, submitted, settles, ?_, ?_, statistics.trans processed,
    extracted.trans accepted, world.dump.storer.writer, ?_, fun time => ?_⟩
  · intro entry member
    obtain ⟨list, here, inside⟩ := List.mem_flatten.mp member
    exact (keeps.sound _ (List.mem_map_of_mem here)).short entry (mem_stableSort.mpr inside)
  · rw [knows.downloaded (seen _), documents]
  · rw [knows.stored (seen _), flows.storer.entries well]
  · refine (Store.Writer.achieves_close (reached.isProper proper)
      (directory ▸ flows.ready well) keeps).mono ?_
    rintro manifest after ⟨rfl, publishes, -⟩
    have describes := keeps.describes time
    rw [stableSort_flatten_map] at publishes describes
    rw [directory] at publishes
    exact ⟨publishes, describes⟩

/-- A run that has ended well has settled all records, and has published the stable sort of the
entries that they become. -/
theorem Job.Reaches.publishes {result : RunResult}
    (reached : job.Reaches assured files₀ actions log world) (sized : job.settings.IsSized)
    (proper : files₀.IsProper)
    (finite : RecordSource.Yields job.request job.source batches failure)
    (returned : world.dump.coordinator.phase = .returned (.ok result)) :
    failure = none ∧ ∃ submitted,
      job.Settles (batches.flatMap RecordBatch.records) log submitted ∧
      Store.Publishes world.files job.directory result.manifest
        (stableSort StoredEntry.path (submitted.map Prod.snd).flatten) ∧
      (∀ entry ∈ (submitted.map Prod.snd).flatten, entry.IsShort) ∧
      result.manifest.Describes
        (stableSort StoredEntry.path (submitted.map Prod.snd).flatten) ∧
      result.downloaded = (batches.flatMap RecordBatch.records).length ∧
      result.statistics.processed = (batches.flatMap RecordBatch.records).length ∧
      result.extracted = (submitted.map Prod.snd).flatten.length ∧
      result.stored = (submitted.map Prod.snd).flatten.length := by
  induction reached using Job.Reaches.rec_moves with
  | opened time started opens => cases returned
  | @move _ log world _ after time before _ step ih =>
    rcases step.of_returned_ok returned with
      earlier | ⟨phase, rfl, downloaded, stored, writer, manifest, first, last, closed, rfl⟩
    · -- the run had ended before, so nobody could do anything
      have calm : world.dump.coordinator.IsCalm := by simp only [Coordinator.IsCalm, earlier]
      exact absurd earlier (step.goesOn_of_calm calm (before.knows calm) _)
    · obtain ⟨ended, submitted, settles, short, documents, processed, extracted, other, noted,
        achieves⟩ := before.closes sized proper finite phase
      have counted := documents.symm.trans first
      have same := noted.symm.trans last
      simp only [Option.some.injEq, Prod.mk.injEq] at counted same
      obtain ⟨stores, rfl⟩ := same
      obtain ⟨publishes, describes⟩ := (achieves time).of_ok closed
      have quiet : log ++ world.dump.taking .coordinate = log := List.append_nil log
      rw [quiet]
      exact ⟨ended, submitted, settles, publishes, short, describes, counted.symm, processed,
        extracted, stores.symm⟩

end TreeExport

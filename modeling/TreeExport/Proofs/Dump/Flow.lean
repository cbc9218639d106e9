import TreeExport.Proofs.Dump.Accounts
import TreeExport.Proofs.Dump.Stock
import TreeExport.Proofs.Dump.Storing
import TreeExport.Proofs.Shares

/-!
# Where the records are

`Dump.Flows` follows the records from the source to the store, until the coordinator returns: every
record is still to come, in hand, in the raw queue or received by one worker, every worker accounts
for what it has received, and every buffer that was submitted is stored, in hand or in its queue, in
order.  Every step keeps it so (`Dump.Flows.move`), so it holds of every world that is reached
(`Job.Reaches.flows`).
-/

namespace TreeExport

theorem IsDealtTo.add {α : Type} {parties id : Nat} {dealt : List (Nat × α)}
    (within : IsDealtTo parties dealt) (here : id < parties) (items : List α) :
    IsDealtTo parties (dealt ++ items.map fun item => (id, item)) := by
  intro deal member
  rcases List.mem_append.mp member with before | more
  · exact within deal before
  · obtain ⟨item, _, rfl⟩ := List.mem_map.mp more
    exact here

theorem shareOf_add_self {α : Type} (id : Nat) (dealt : List (Nat × α)) (items : List α) :
    shareOf id (dealt ++ items.map fun item => (id, item)) = shareOf id dealt ++ items := by
  rw [shareOf_append, shareOf_map_self]

theorem shareOf_add_of_ne {α : Type} {id other : Nat} (differ : other ≠ id)
    (dealt : List (Nat × α)) (items : List α) :
    shareOf id (dealt ++ items.map fun item => (other, item)) = shareOf id dealt := by
  rw [shareOf_append, shareOf_map_of_ne differ, List.append_nil]

theorem map_snd_add {α : Type} (id : Nat) (dealt : List (Nat × α)) (items : List α) :
    (dealt ++ items.map fun item => (id, item)).map Prod.snd = dealt.map Prod.snd ++ items := by
  rw [List.map_append, List.map_map]
  exact congrArg _ (List.map_id items)

theorem Pool.Call.Advances.filled_eq {pool after : Pool} {cancelled : Bool} {call : Pool.Call}
    {progress : Pool.Progress} (step : Pool.Call.Advances pool cancelled call after progress)
    (kind : call.kind = .signal ∨ call.kind = .drain) : after.filled = pool.filled := by
  cases step with
  | placeEnd room =>
    simp only [filled, List.flatMap_append, List.flatMap_singleton, FullItem.contents,
      List.append_nil]
  | signalTwice | signalEnd | noRoomForEnd | drainFirst | drainDone | drained => rfl
  | _ => rcases kind with other | other <;> cases other

/-- Signalling the end and releasing buffers spoils none. -/
theorem Pool.Call.Advances.isSound_of_coordinator {capacity maxEntries : Nat} {pool after : Pool}
    {cancelled : Bool} {call : Pool.Call} {progress : Pool.Progress}
    (step : Pool.Call.Advances pool cancelled call after progress)
    (kind : call.kind = .signal ∨ call.kind = .drain) (pools : pool.IsSound capacity maxEntries) :
    after.IsSound capacity maxEntries := by
  refine step.pool_isSound pools ?_
  cases call with
  | signalEnd | placeEnd | drain | drained => trivial
  | _ => rcases kind with other | other <;> cases other

variable {σ : Type} [RecordSource σ]

theorem Queue.records_leaveRaw (ended receives : Bool) (raw : Queue RawItem) :
    (Dump.leaveRaw ended receives raw).records = raw.records := by
  simp only [Queue.records, Dump.leaveRaw_items]

/-- Of the records that a source hands out, some have been received by workers; of these, those in
the log have been taken up; some lists of entries have been submitted by workers, and the first of
them have been stored. -/
structure Dump.Flows (job : Job σ) (assured : Prop) (all : List Record) (failure : Option Error)
    (log : List (Nat × Record)) (dump : Dump σ) (files : Files)
    (received : List (Nat × Record)) (submitted : List (Nat × List StoredEntry))
    (stored : List (List StoredEntry)) : Prop where
  source : ∃ rest, dump.download.Expects job.request rest failure ∧
    received.map Prod.snd ++ dump.shared.raw.records ++ dump.download.hand ++ rest = all
  documents : dump.download.IsWell → dump.download.documents =
    (received.map Prod.snd ++ dump.shared.raw.records ++ dump.download.hand).length
  receivers : IsDealtTo dump.workers.length received
  takers : IsDealtTo dump.workers.length log
  senders : IsDealtTo dump.workers.length submitted
  workers : ∀ id (worker : Worker), dump.workers[id]? = some worker →
    worker.Accounts job.extraction job.settings.budget.bufferBytes
      job.settings.budget.entriesPerBuffer (shareOf id received) (shareOf id log)
      (shareOf id submitted)
  pool : dump.shared.pool.IsSound job.settings.budget.bufferBytes
    job.settings.budget.entriesPerBuffer
  storer : dump.storer.Accounts job.settings.budget.bufferBytes
    job.settings.budget.entriesPerBuffer assured files stored
  queue : dump.storer.IsWell →
    submitted.map Prod.snd = stored ++ dump.storer.hand ++ dump.shared.pool.filled
  directory : dump.storer.writer.directory = job.directory
  checkpoint : dump.storer.writer.checkpoint = job.checkpoint
  ready : dump.storer.IsWell → Store.IsReady files job.directory

namespace Dump

variable {job : Job σ} {assured : Prop} {time : Moment} {dump after : Dump σ}
  {files changed : Files} {action : Action} {all : List Record} {failure : Option Error}
  {log received : List (Nat × Record)} {submitted : List (Nat × List StoredEntry)}
  {stored : List (List StoredEntry)}

/-! ## The coordinator's steps -/

theorem Flows.of_same
    (flows : dump.Flows job assured all failure log files received submitted stored)
    (download : after.download = dump.download) (workers : after.workers = dump.workers)
    (storer : after.storer = dump.storer)
    (raw : after.shared.raw.records = dump.shared.raw.records)
    (pool : after.shared.pool.IsSound job.settings.budget.bufferBytes
      job.settings.budget.entriesPerBuffer)
    (filled : after.shared.pool.filled = dump.shared.pool.filled) :
    after.Flows job assured all failure log files received submitted stored := by
  refine ⟨?_, ?_, ?_, ?_, ?_, ?_, pool, ?_, ?_, ?_, ?_, ?_⟩
  · rw [download, raw]
    exact flows.source
  · rw [download, raw]
    exact flows.documents
  · rw [workers]
    exact flows.receivers
  · rw [workers]
    exact flows.takers
  · rw [workers]
    exact flows.senders
  · rw [workers]
    exact flows.workers
  · rw [storer]
    exact flows.storer
  · rw [storer, filled]
    exact flows.queue
  · rw [storer]
    exact flows.directory
  · rw [storer]
    exact flows.checkpoint
  · rw [storer]
    exact flows.ready

theorem Flows.cancel
    (flows : dump.Flows job assured all failure log files received submitted stored)
    (stage : Stage) :
    (dump.cancel stage).Flows job assured all failure log files received submitted stored := by
  cases stage with
  | download =>
    obtain ⟨rest, expects, whole⟩ := flows.source
    exact { flows with source := ⟨rest, expects.cancel, whole⟩ }
  | transform id =>
    have length : (dump.cancel (.transform id)).workers.length = dump.workers.length :=
      List.length_modify ..
    refine
      { flows with
        receivers := length ▸ flows.receivers
        takers := length ▸ flows.takers
        senders := length ▸ flows.senders
        workers := fun other worker here => ?_ }
    have there : (dump.workers.modify id fun worker => { worker with cancelled := true })[other]? =
        some worker := here
    rw [List.getElem?_modify] at there
    obtain ⟨before, found, rfl⟩ := Option.map_eq_some_iff.mp there
    have accounts := flows.workers other before found
    by_cases same : id = other
    · rw [if_pos same]
      exact accounts.cancel
    · rw [if_neg same]
      exact accounts
  | sortAndStore => exact { flows with storer := flows.storer.cancel }

theorem Flows.join {stage : Stage}
    (flows : dump.Flows job assured all failure log files received submitted stored)
    (step : dump.Joins stage after) :
    after.Flows job assured all failure log files received submitted stored := by
  cases step <;> exact flows.of_same rfl rfl rfl rfl flows.pool rfl

theorem Flows.coordinate
    (flows : dump.Flows job assured all failure log files received submitted stored)
    (ends : dump.Ends job) (step : dump.Coordinates assured time files after changed)
    (goesOn : ∀ result, after.coordinator.phase ≠ .returned result) :
    after.Flows job assured all failure log changed received submitted stored := by
  have shaped := ends.coordinator
  cases step with
  | started phase =>
    exact flows.of_same rfl rfl rfl (Queue.records_leaveRaw _ _ _) flows.pool rfl
  | signalling phase advance | signalled phase advance | signalFailed phase advance =>
    simp only [Coordinator.IsShaped, phase] at shaped
    exact flows.of_same rfl rfl rfl rfl (advance.isSound_of_coordinator (.inl shaped) flows.pool)
      (advance.filled_eq (.inl shaped))
  | draining phase advance | drained phase advance | drainFailed phase advance =>
    simp only [Coordinator.IsShaped, phase] at shaped
    exact flows.of_same rfl rfl rfl rfl (advance.isSound_of_coordinator (.inr shaped) flows.pool)
      (advance.filled_eq (.inr shaped))
  | @cancelled cause stage left phase =>
    have kept := flows.cancel stage
    exact kept.of_same rfl rfl rfl rfl kept.pool rfl
  | closed => exact absurd rfl (goesOn _)
  | closeFailed => exact absurd rfl (goesOn _)
  | _ => exact flows.of_same rfl rfl rfl rfl flows.pool rfl

/-! ## The steps of the stages -/

theorem Flows.downloads {download : Download σ} {raw : Queue RawItem}
    (flows : dump.Flows job assured all failure log files received submitted stored)
    (step : Download.Moves job.request dump.download dump.shared.raw download raw)
    (same : after = { dump with
      download := download
      shared := { dump.shared with raw := leaveRaw download.outcome?.isSome false raw } }) :
    after.Flows job assured all failure log files received submitted stored := by
  subst same
  obtain ⟨rest, expects, whole⟩ := flows.source
  obtain ⟨left, later, moved, counted⟩ := step.expects expects
  have documents := flows.documents (Download.isWell_of_outcome step.ends.1)
  refine { flows with source := ⟨left, later, ?_⟩, documents := fun well => ?_ }
  · rw [Queue.records_leaveRaw, List.append_assoc, List.append_assoc, ← List.append_assoc raw.records,
      moved, ← whole, List.append_assoc, List.append_assoc, List.append_assoc]
  · have now := counted well
    rw [Queue.records_leaveRaw]
    simp only [List.length_append] at documents now ⊢
    omega

omit [RecordSource σ] in
theorem taking_worker {id : Nat} {side : Side} {worker : Worker}
    (here : dump.workers[id]? = some worker) :
    dump.taking (.worker id side) = worker.takes.map fun record => (id, record) := by
  simp only [taking, here, Option.map_some, Worker.takes]
  cases phase : worker.phase with
  | processing rest => cases rest <;> rfl
  | _ => rfl

theorem Flows.works {id : Nat} {worker worked : Worker} {shared : Shared}
    (flows : dump.Flows job assured all failure log files received submitted stored)
    (ends : dump.Ends job) (sized : job.settings.IsSized) (goesOn : dump.shared.pool.ended = false)
    (here : dump.workers[id]? = some worker)
    (step : Worker.Moves job.extraction worker dump.shared worked shared)
    (same : after = { dump with
      workers := dump.workers.set id worked
      shared := { shared with raw := leaveRaw worked.outcome?.isSome true shared.raw } }) :
    ∃ (got : List Record) (given : List (List StoredEntry)), after.Flows job assured all failure
      (log ++ worker.takes.map fun record => (id, record)) files
      (received ++ got.map fun record => (id, record))
      (submitted ++ given.map fun entries => (id, entries)) stored := by
  subst same
  have within : id < dump.workers.length := (List.getElem?_eq_some_iff.mp here).1
  have length : (dump.workers.set id worked).length = dump.workers.length := List.length_set
  obtain ⟨got, given, raw, filled, pools, accounts⟩ :=
    step.accounts (ends.shaped worker (List.mem_of_getElem? here)) (flows.workers id worker here)
      flows.pool goesOn sized.bytes sized.entries
  refine ⟨got, given,
    { flows with
      source := ?_, documents := ?_, receivers := ?_, takers := ?_, senders := ?_, workers := ?_
      pool := pools, queue := ?_ }⟩
  · obtain ⟨rest, expects, whole⟩ := flows.source
    refine ⟨rest, expects, ?_⟩
    rw [Queue.records_leaveRaw, map_snd_add, List.append_assoc (received.map Prod.snd), ← raw]
    exact whole
  · rw [Queue.records_leaveRaw, map_snd_add, List.append_assoc (received.map Prod.snd), ← raw]
    exact flows.documents
  · exact (flows.receivers.add within got).mono length
  · exact (flows.takers.add within worker.takes).mono length
  · exact (flows.senders.add within given).mono length
  · intro other found there
    by_cases same : id = other
    · subst same
      rw [List.getElem?_set_self within] at there
      cases there
      rw [shareOf_add_self, shareOf_add_self, shareOf_add_self]
      exact accounts
    · rw [List.getElem?_set_ne same] at there
      rw [shareOf_add_of_ne same, shareOf_add_of_ne same, shareOf_add_of_ne same]
      exact flows.workers other found there
  · intro well
    rw [map_snd_add, flows.queue well]
    exact (List.append_assoc ..).trans (congrArg _ filled.symm)

theorem Flows.stores {storer : Storer} {pool : Pool}
    (flows : dump.Flows job assured all failure log files received submitted stored)
    (step : Storer.Moves assured time dump.storer dump.shared.pool files storer pool changed)
    (same : after = { dump with storer := storer, shared := { dump.shared with pool := pool } }) :
    ∃ more, after.Flows job assured all failure log changed received submitted
      (stored ++ more) := by
  subst same
  have runs := Storer.isWell_of_outcome step.ends.1
  obtain ⟨more, pools, directory, checkpoint, accounts, smooth⟩ :=
    step.accounts flows.storer flows.pool
  refine ⟨more,
    { flows with
      pool := pools
      storer := accounts
      queue := fun well => ?_
      directory := directory.trans flows.directory
      checkpoint := checkpoint.trans flows.checkpoint
      ready := fun well => (flows.ready runs).of_overwrites (smooth well).2 }⟩
  have whole := (smooth well).1
  rw [flows.queue runs, List.append_assoc, ← whole]
  simp only [List.append_assoc]

/-- Every step before the coordinator returns keeps the records in their places. -/
theorem Flows.move
    (flows : dump.Flows job assured all failure log files received submitted stored)
    (ends : dump.Ends job) (sized : job.settings.IsSized) {filled : List Buffer} {marks : Nat}
    (stocking : dump.Stocking job filled marks)
    (step : Moves job assured time dump files action after changed)
    (goesOn : ∀ result, after.coordinator.phase ≠ .returned result) :
    ∃ received submitted stored, after.Flows job assured all failure (log ++ dump.taking action)
      changed received submitted stored := by
  have quiet {stored : List (List StoredEntry)}
      (flows : after.Flows job assured all failure log changed received submitted stored)
      (none : dump.taking action = []) :
      ∃ received submitted stored, after.Flows job assured all failure (log ++ dump.taking action)
        changed received submitted stored := by
    rw [none, List.append_nil]
    exact ⟨received, submitted, stored, flows⟩
  cases step with
  | download step => exact quiet (flows.downloads step rfl) rfl
  | @worker id side worker worked shared here step =>
    have goingOn : dump.shared.pool.ended = false := by
      cases ended : dump.shared.pool.ended with
      | false => rfl
      | true =>
        have finished := stocking.isOver ended worker (List.mem_of_getElem? here)
        exact absurd finished step.phase_ne_finished
    obtain ⟨got, given, kept⟩ := flows.works ends sized goingOn here step rfl
    rw [taking_worker here]
    exact ⟨_, _, stored, kept⟩
  | storer step =>
    obtain ⟨more, kept⟩ := flows.stores step rfl
    exact quiet kept rfl
  | join step => exact quiet (flows.join step) rfl
  | coordinate step => exact quiet (flows.coordinate ends step goesOn) rfl

/-! ## The start -/

theorem flows_start {writer : Store.Writer} {batches : List RecordBatch} (started : Moment)
    (finite : RecordSource.Yields job.request job.source batches failure)
    (opens : (Store.Writer.openAt job.directory).runOn time files = (.ok writer, changed)) :
    (start job writer started).Flows job assured (batches.flatMap RecordBatch.records) failure []
      changed [] [] [] := by
  obtain ⟨rfl, ready, -⟩ := Store.Writer.openAt_ok opens
  refine
    { source := ⟨_, ⟨batches, finite, rfl⟩, rfl⟩
      documents := fun _ => rfl
      receivers := fun _ none => absurd none List.not_mem_nil
      takers := fun _ none => absurd none List.not_mem_nil
      senders := fun _ none => absurd none List.not_mem_nil
      workers := fun id worker here => ?_
      pool := Pool.isSound_create _ _ _
      storer := Storer.accounts_start rfl rfl
      queue := fun _ => rfl
      directory := rfl
      checkpoint := rfl
      ready := fun _ => ready }
  obtain ⟨number, _, rfl⟩ := List.mem_map.mp (List.mem_of_getElem? here)
  exact Worker.accounts_start number

/-- A coordinator that has not returned had not returned before. -/
theorem Moves.goesOn_before (step : Moves job assured time dump files action after changed)
    (goesOn : ∀ result, after.coordinator.phase ≠ .returned result) :
    ∀ result, dump.coordinator.phase ≠ .returned result := by
  intro result returned
  cases step with
  | join step => cases step <;> cases returned.symm.trans ‹dump.coordinator.phase = _›
  | coordinate step => cases step <;> cases returned.symm.trans ‹dump.coordinator.phase = _›
  | _ => exact goesOn result returned

end Dump

/-- Until the coordinator returns, every record is where it belongs. -/
theorem Job.Reaches.flows {job : Job σ} {assured : Prop} {files₀ : Files} {actions : List Action}
    {log : List (Nat × Record)} {world : World σ} {batches : List RecordBatch}
    {failure : Option Error} (reached : job.Reaches assured files₀ actions log world)
    (sized : job.settings.IsSized)
    (finite : RecordSource.Yields job.request job.source batches failure)
    (goesOn : ∀ result, world.dump.coordinator.phase ≠ .returned result) :
    ∃ received submitted stored, world.dump.Flows job assured
      (batches.flatMap RecordBatch.records) failure log world.files received submitted stored := by
  induction reached using Job.Reaches.rec_moves with
  | opened time started opens => exact ⟨_, _, _, Dump.flows_start started finite opens⟩
  | move before _ step ih =>
    obtain ⟨received, submitted, stored, flows⟩ := ih (step.goesOn_before goesOn)
    obtain ⟨filled, marks, stocking, -⟩ := before.stocking sized.workers
    exact flows.move before.ends sized stocking step goesOn

end TreeExport

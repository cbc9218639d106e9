import TreeExport.Proofs.Dump.Smooth
import TreeExport.Proofs.Source.Yields

/-!
# What the download has left

What the source hands out goes to the raw queue in order and whole: what is in the queue, in hand
and still to come is the same before and after every step of the download
(`Download.Moves.expects`).
-/

namespace TreeExport

/-- The records of an item. -/
def RawItem.records : RawItem → List Record
  | .batch content => content.records
  | .endOfStream => []

/-- The records in the raw queue, in order. -/
def Queue.records (raw : Queue RawItem) : List Record :=
  raw.items.flatMap RawItem.records

variable {σ : Type} [RecordSource σ]

namespace Download

/-- The records that the download has got and not sent. -/
def hand (download : Download σ) : List Record :=
  match download.phase with
  | .sending batch _ => batch.records
  | _ => []

/-- The source has some records left to hand out, and then ends or fails, unless the download has
been stopped. -/
def Expects (request : BatchRequest) (download : Download σ) (rest : List Record)
    (failure : Option Error) : Prop :=
  match download.phase with
  | .ending _ => rest = [] ∧ failure = none
  | .finished => rest = [] ∧ failure = none
  | .failed cause => cause.IsStop download.cancelled ∨ failure = some cause
  | _ => ∃ batches, RecordSource.Yields request download.source batches failure ∧
      rest = batches.flatMap RecordBatch.records

theorem Moves.expects {request : BatchRequest} {download after : Download σ}
    {raw rawAfter : Queue RawItem} {rest : List Record} {failure : Option Error}
    (step : Moves request download raw after rawAfter)
    (expects : download.Expects request rest failure) :
    ∃ left, after.Expects request left failure ∧
      rawAfter.records ++ after.hand ++ left = raw.records ++ download.hand ++ rest ∧
      (after.IsWell → after.documents + (raw.records ++ download.hand).length =
        download.documents + (rawAfter.records ++ after.hand).length) := by
  cases step with
  | checkStopped phase set =>
    refine ⟨rest, .inl ⟨set, rfl⟩, ?_, fun well => absurd rfl (well _)⟩
    simp only [hand, fail, phase]
  | checked phase clear =>
    simp only [Expects, phase] at expects
    refine ⟨rest, expects, ?_, fun _ => ?_⟩
    · simp only [hand, phase]
    · simp only [hand, phase]
  | sourceFailed phase answer =>
    simp only [Expects, phase] at expects
    obtain ⟨batches, yields, rfl⟩ := expects
    obtain ⟨rfl, rfl⟩ := yields.of_error answer
    refine ⟨[], .inr rfl, ?_, fun well => absurd rfl (well _)⟩
    simp only [hand, fail, phase, List.flatMap_nil]
  | sourceEnded phase answer =>
    simp only [Expects, phase] at expects
    obtain ⟨batches, yields, rfl⟩ := expects
    obtain ⟨rfl, rfl⟩ := yields.of_none answer
    refine ⟨[], ⟨rfl, rfl⟩, ?_, fun _ => ?_⟩
    · simp only [hand, phase, List.flatMap_nil]
    · simp only [hand, phase]
  | @gotEmpty batch source phase answer empty =>
    simp only [Expects, phase] at expects
    obtain ⟨batches, yields, rfl⟩ := expects
    obtain ⟨later, rfl, yieldsLater⟩ := yields.of_some answer
    refine ⟨_, ⟨later, yieldsLater, rfl⟩, ?_, fun _ => ?_⟩
    · simp only [hand, phase, List.flatMap_cons, empty, List.nil_append]
    · simp only [hand, phase]
  | @got batch source phase answer full =>
    simp only [Expects, phase] at expects
    obtain ⟨batches, yields, rfl⟩ := expects
    obtain ⟨later, rfl, yieldsLater⟩ := yields.of_some answer
    refine ⟨_, ⟨later, yieldsLater, rfl⟩, ?_, fun _ => ?_⟩
    · simp only [hand, phase, List.flatMap_cons, List.append_assoc, List.nil_append]
    · simp only [hand, phase, List.length_append, List.length_nil]
      omega
  | @sendStopped batch attempt phase set =>
    refine ⟨batch.records ++ rest, .inl ⟨set, rfl⟩, ?_, fun well => absurd rfl (well _)⟩
    simp only [hand, fail, phase, List.append_assoc, List.nil_append]
  | sendReady phase clear =>
    simp only [Expects, phase] at expects
    refine ⟨rest, expects, ?_, fun _ => ?_⟩
    · simp only [hand, phase]
    · simp only [hand, phase]
  | sent phase room =>
    simp only [Expects, phase] at expects
    refine ⟨rest, expects, ?_, fun _ => ?_⟩
    · simp only [hand, phase, Queue.records, List.flatMap_append, List.flatMap_singleton,
        RawItem.records, List.append_nil]
    · simp only [hand, phase, Queue.records, List.flatMap_append, List.flatMap_singleton,
        RawItem.records, List.append_nil]
  | endStopped phase set =>
    refine ⟨rest, .inl ⟨set, rfl⟩, ?_, fun well => absurd rfl (well _)⟩
    simp only [hand, fail, phase]
  | endReady phase clear =>
    simp only [Expects, phase] at expects
    refine ⟨rest, expects, ?_, fun _ => ?_⟩
    · simp only [hand, phase]
    · simp only [hand, phase]
  | ended phase room =>
    simp only [Expects, phase] at expects
    refine ⟨rest, expects, ?_, fun _ => ?_⟩
    · simp only [hand, phase, Queue.records, List.flatMap_append, List.flatMap_singleton,
        RawItem.records, List.append_nil]
    · simp only [hand, phase, Queue.records, List.flatMap_append, List.flatMap_singleton,
        RawItem.records, List.append_nil]

theorem Expects.cancel {request : BatchRequest} {download : Download σ} {rest : List Record}
    {failure : Option Error} (expects : download.Expects request rest failure) :
    ({ download with cancelled := true } : Download σ).Expects request rest failure := by
  unfold Expects at *
  cases phase : download.phase with
  | failed cause =>
    simp only [phase] at expects
    exact expects.imp_left Error.IsStop.cancel
  | _ =>
    simp only [phase] at expects
    exact expects

/-- What the source hands out from now on it hands out from its start, behind what it has handed out
already.  A download that has seen the end of the source has seen all of that. -/
def Continues (request : BatchRequest) (source : σ) (download : Download σ) : Prop :=
  match download.phase with
  | .failed _ => True
  | .ending _ => ∃ batches, RecordSource.Yields request source batches none
  | .finished => ∃ batches, RecordSource.Yields request source batches none
  | _ => ∃ handed, ∀ batches failure, RecordSource.Yields request download.source batches failure →
      RecordSource.Yields request source (handed ++ batches) failure

theorem Moves.continues {request : BatchRequest} {source : σ} {download after : Download σ}
    {raw rawAfter : Queue RawItem} (step : Moves request download raw after rawAfter)
    (continues : download.Continues request source) : after.Continues request source := by
  have more {batch : RecordBatch} {later : σ}
      (answer : RecordSource.next request download.source = (.ok (some batch), later))
      (continues : ∃ handed, ∀ batches failure,
        RecordSource.Yields request download.source batches failure →
          RecordSource.Yields request source (handed ++ batches) failure) :
      ∃ handed, ∀ batches failure, RecordSource.Yields request later batches failure →
        RecordSource.Yields request source (handed ++ batches) failure := by
    obtain ⟨handed, whole⟩ := continues
    refine ⟨handed ++ [batch], fun batches failure yields => ?_⟩
    rw [List.append_assoc]
    exact whole (batch :: batches) failure (.batch answer yields)
  cases step with
  | checkStopped | sourceFailed | sendStopped | endStopped => trivial
  | sourceEnded phase answer =>
    simp only [Continues, phase] at continues
    obtain ⟨handed, whole⟩ := continues
    exact ⟨_, whole [] none (.ended answer)⟩
  | gotEmpty phase answer =>
    simp only [Continues, phase] at continues
    exact more answer continues
  | got phase answer =>
    simp only [Continues, phase] at continues
    exact more answer continues
  | _ =>
    simp only [Continues, ‹download.phase = _›] at continues
    exact continues

end Download

namespace Dump

variable {job : Job σ} {assured : Prop} {time : Moment} {dump after : Dump σ}
  {files changed : Files} {action : Action} {stage : Stage} {rest : List Record}
  {failure : Option Error}

theorem expects_cancel (expects : dump.download.Expects job.request rest failure)
    (stage : Stage) : (dump.cancel stage).download.Expects job.request rest failure := by
  cases stage with
  | download => exact expects.cancel
  | _ => exact expects

theorem Moves.expects (step : Moves job assured time dump files action after changed)
    (expects : dump.download.Expects job.request rest failure) :
    ∃ left, after.download.Expects job.request left failure := by
  cases step with
  | download step =>
    obtain ⟨left, later, -⟩ := step.expects expects
    exact ⟨left, later⟩
  | join step => cases step <;> exact ⟨rest, expects⟩
  | coordinate step =>
    cases step with
    | cancelled => exact ⟨rest, expects_cancel expects _⟩
    | _ => exact ⟨rest, expects⟩
  | _ => exact ⟨rest, expects⟩

theorem Moves.continues {source : σ}
    (step : Moves job assured time dump files action after changed)
    (continues : dump.download.Continues job.request source) :
    after.download.Continues job.request source := by
  cases step with
  | download step => exact step.continues continues
  | join step => cases step <;> exact continues
  | coordinate step =>
    cases step with
    | @cancelled _ stage _ _ => cases stage <;> exact continues
    | _ => exact continues
  | _ => exact continues

end Dump

/-- The download of a finite source never comes to anything but what the source yields. -/
theorem Job.Reaches.expects {job : Job σ} {assured : Prop} {files₀ : Files}
    {actions : List Action} {log : List (Nat × Record)} {world : World σ}
    {batches : List RecordBatch} {failure : Option Error}
    (reached : job.Reaches assured files₀ actions log world)
    (finite : RecordSource.Yields job.request job.source batches failure) :
    ∃ rest, world.dump.download.Expects job.request rest failure := by
  induction reached using Job.Reaches.rec_moves with
  | opened time started opens => exact ⟨_, batches, finite, rfl⟩
  | move before _ step ih =>
    obtain ⟨rest, expects⟩ := ih
    exact step.expects expects

/-- The download ends well only if the source comes to an end and does not fail. -/
theorem Job.Reaches.exists_yields {job : Job σ} {assured : Prop} {files₀ : Files}
    {actions : List Action} {log : List (Nat × Record)} {world : World σ}
    (reached : job.Reaches assured files₀ actions log world)
    (isOver : world.dump.download.phase = .finished) :
    ∃ batches, RecordSource.Yields job.request job.source batches none := by
  have continues : world.dump.download.Continues job.request job.source := by
    clear isOver
    induction reached using Job.Reaches.rec_moves with
    | opened time started opens => exact ⟨[], fun _ _ yields => yields⟩
    | move before _ step ih => exact step.continues ih
  simp only [Download.Continues, isOver] at continues
  exact continues

end TreeExport

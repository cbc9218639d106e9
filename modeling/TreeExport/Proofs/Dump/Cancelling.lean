import TreeExport.Proofs.Dump.Interrupts
import TreeExport.Proofs.Dump.Turns
import TreeExport.Proofs.Dump.Work

/-!
# Cancelling the stages of a run

`World.Leads` holds of two worlds if some steps lead from the one to the other, between which tokens
may be set, and tells which steps were taken and which stages put something into a queue or took
something out.  Once the token of a stage is set, the stage does that once at most
(`World.Leads.count_le`).

A coordinator that gives up sets the tokens of the stages that it has not seen end, one after the
other (`Dump.Cancels`), and then waits for them.  From then on there is only so much work left,
whatever the source would still hand out (`World.Leads.length_add_stopWork_le`), and so all stages
end and the run returns (`Job.Reaches.cancellation_gets_through`).
-/

namespace TreeExport

variable {σ : Type}

namespace Dump

/-- The numbers of items in the queues. -/
def sizes (dump : Dump σ) : Nat × Nat × Nat :=
  (dump.shared.raw.items.length, dump.shared.pool.empties.items.length,
    dump.shared.pool.fulls.items.length)

/-- The stage that puts something into a queue or takes something out with a step, if one does. -/
def moving (dump after : Dump σ) (action : Action) : List Stage :=
  if after.sizes = dump.sizes then [] else action.stage?.toList

end Dump

section Leading

variable [RecordSource σ]

/-- The actions `actions`, one after the other, lead from one world to another, where tokens may be
set in between; the stages `moved` have put something into a queue or taken something out, in
order. -/
inductive World.Leads (job : Job σ) (assured : Prop) (world : World σ) :
    List Action → List Stage → World σ → Prop
  | here : Leads job assured world [] [] world
  | step {actions : List Action} {moved : List Stage} {middle after : World σ} {action : Action}
      (before : Leads job assured world actions moved middle)
      (step : middle.Step job assured action after) :
      Leads job assured world (actions ++ [action])
        (moved ++ middle.dump.moving after.dump action) after
  | cancel {actions : List Action} {moved : List Stage} {middle : World σ} (stage : Stage)
      (before : Leads job assured world actions moved middle) :
      Leads job assured world actions moved ⟨middle.dump.cancel stage, middle.files⟩

end Leading

/-! ## A stage whose token is set -/

namespace Dump

variable {job : Job σ} {assured : Prop} {time : Moment} {dump after : Dump σ}
  {files changed : Files} {action : Action} {stage : Stage}

/-- The number of operations on a queue that a stage whose token is set can still carry out. -/
def grace (dump : Dump σ) (stage : Stage) : Nat :=
  if dump.attempt? stage = some .wait then 1 else 0

variable [RecordSource σ]

end Dump

namespace World.Leads

variable [RecordSource σ] {job : Job σ} {assured : Prop} {world : World σ}
  {actions : List Action} {moved : List Stage} {later : World σ} {stage : Stage}

theorem ends (leads : world.Leads job assured actions moved later) (ends : world.dump.Ends job) :
    later.dump.Ends job := by
  induction leads with
  | here => exact ends
  | step before step ih =>
    cases step with
    | mk time possible steady => exact ih.move (Dump.moves_of_step ih possible rfl steady)
  | cancel stage before ih => exact ih.cancel stage

/-- What holds of the first world and what steps and the setting of tokens keep, holds of the last
world. -/
@[elab_as_elim] theorem rec_moves
    {motive : ∀ {actions moved later}, world.Leads job assured actions moved later → Prop}
    (here : motive .here)
    (move : ∀ {actions moved middle action after time}
      (before : world.Leads job assured actions moved middle)
      (step : middle.Step job assured action after), middle.dump.Ends job →
        Dump.Moves job assured time middle.dump middle.files action after.dump after.files →
          motive before → motive (before.step step))
    (cancel : ∀ {actions moved middle} (stage : Stage)
      (before : world.Leads job assured actions moved middle), motive before →
        motive (before.cancel stage))
    (ends : world.dump.Ends job) (leads : world.Leads job assured actions moved later) :
    motive leads := by
  induction leads with
  | here => exact here
  | step before step ih =>
    have known := before.ends ends
    cases step with
    | mk time possible steady =>
      exact move before (.mk time possible steady) known
        (Dump.moves_of_step known possible rfl steady) ih
  | cancel stage before ih => exact cancel stage before ih

/-- A token that is set stays set. -/
theorem isCancelled (leads : world.Leads job assured actions moved later)
    (ends : world.dump.Ends job) (set : world.dump.isCancelled stage = true) :
    later.dump.isCancelled stage = true := by
  induction leads using World.Leads.rec_moves with
  | here => exact set
  | move before step known moves ih => exact moves.isCancelled ih
  | cancel other before ih => exact Dump.isCancelled_cancel other ih
  | ends => exact ends

end World.Leads

/-! ## The work that is left when all are to stop -/

namespace Download

variable [RecordSource σ] {request : BatchRequest} {download after : Download σ}
  {raw rawAfter : Queue RawItem}

end Download

namespace Dump

variable {job : Job σ} {assured : Prop} {time : Moment} {dump after : Dump σ}
  {files changed : Files} {action : Action} {stage : Stage}

/-- A stage is over, or its token is set. -/
def Stops (dump : Dump σ) (stage : Stage) : Prop :=
  dump.isCancelled stage = true ∨ (dump.outcome? stage).isSome

theorem Stops.cancel (stops : dump.Stops stage) (other : Stage) : (dump.cancel other).Stops stage :=
  stops.imp (isCancelled_cancel other) fun isOver => by rwa [outcome?_cancel]

variable [RecordSource σ]

/-- A stage that is over takes no step. -/
theorem Moves.runs (step : Moves job assured time dump files action after changed)
    (mine : action.stage? = some stage) : dump.outcome? stage = none := by
  cases step with
  | download step =>
    cases mine
    exact step.ends.1
  | worker here step =>
    cases mine
    simp only [outcome?, here, Option.bind_some]
    exact step.ends.1
  | storer step =>
    cases mine
    exact step.ends.1
  | join step => cases mine
  | coordinate step => cases mine

theorem Moves.outcome?_eq (step : Moves job assured time dump files action after changed)
    (other : action.stage? ≠ some stage) : after.outcome? stage = dump.outcome? stage := by
  cases step with
  | download step =>
    cases stage with
    | download => exact absurd rfl other
    | _ => rfl
  | @worker id _ _ worked _ here step =>
    cases stage with
    | transform number =>
      have apart : id ≠ number := fun same => other (by rw [same]; rfl)
      simp only [outcome?, List.getElem?_set_ne apart]
    | _ => rfl
  | storer step =>
    cases stage with
    | sortAndStore => exact absurd rfl other
    | _ => rfl
  | join step => cases step <;> rfl
  | coordinate step =>
    cases step with
    | @cancelled _ cancelled _ phase => exact outcome?_cancel dump cancelled stage
    | _ => rfl

/-- A stage that is over stays so. -/
theorem Moves.isOver (step : Moves job assured time dump files action after changed)
    (isOver : (dump.outcome? stage).isSome) : (after.outcome? stage).isSome := by
  by_cases mine : action.stage? = some stage
  · rw [step.runs mine] at isOver
    cases isOver
  · rwa [step.outcome?_eq mine]

theorem Moves.stops (step : Moves job assured time dump files action after changed)
    (stops : dump.Stops stage) : after.Stops stage :=
  stops.imp step.isCancelled step.isOver

end Dump

/-- The stages that the coordinator has not seen end after some actions, in the order in which it
cancels them: the download, the workers by their numbers, and sort-and-store. -/
def Job.unseen (job : Job σ) (actions : List Action) : List Stage :=
  job.stages.filter fun stage => .join stage ∉ actions

namespace Job

variable {job : Job σ} {actions : List Action} {action : Action}

theorem unseen_append (other : ∀ stage, action ≠ .join stage) :
    job.unseen (actions ++ [action]) = job.unseen actions := by
  refine List.filter_congr fun stage _ => decide_eq_decide.mpr (not_congr ?_)
  rw [List.mem_append, List.mem_singleton, or_iff_left fun same => other stage same.symm]

theorem unseen_join (stage : Stage) : job.unseen (actions ++ [.join stage]) =
    (job.unseen actions).filter (· != stage) := by
  rw [unseen, unseen, List.filter_filter]
  refine List.filter_congr fun other _ => ?_
  by_cases same : other = stage
  · subst same
    simp
  · have apart : Action.join other ≠ .join stage := fun equal => same (Action.join.inj equal)
    simp [same, apart]

end Job

namespace Dump

variable {job : Job σ} {assured : Prop} {time : Moment} {dump after : Dump σ}
  {files changed : Files} {action : Action} {actions : List Action} {stage : Stage}

/-- The coordinator has set the tokens of all stages that it had not seen end when it gave up, and of
no others. -/
def HasCancelled (job : Job σ) (actions : List Action) (dump : Dump σ) : Prop :=
  (∃ earlier, earlier <+: actions ∧ dump.coordinator.outstanding = job.unseen earlier) ∧
    ∀ stage, dump.isCancelled stage = true ↔ stage ∈ dump.coordinator.outstanding

/-- Which tokens are set.  As long as the coordinator has not given up, none is.  Then it sets those of
the stages that it has not seen end, and of no others, in the order of the stages; and it waits for
these stages. -/
def Cancels (job : Job σ) (actions : List Action) (dump : Dump σ) : Prop :=
  match dump.coordinator.phase with
  | .cancelling _ left =>
    dump.coordinator.outstanding = job.unseen actions ∧
      ∃ done, dump.coordinator.outstanding = done ++ left ∧
        ∀ stage, dump.isCancelled stage = true ↔ stage ∈ done
  | .shuttingDown _ left => left = job.unseen actions ∧ dump.HasCancelled job actions
  | .returned _ => job.unseen actions = [] ∧ dump.HasCancelled job actions
  | _ =>
    dump.coordinator.outstanding = job.unseen actions ∧
      ∀ stage, dump.isCancelled stage = false

theorem HasCancelled.mono (cancelled : dump.HasCancelled job actions) (action : Action)
    (outstanding : after.coordinator.outstanding = dump.coordinator.outstanding)
    (tokens : ∀ stage, after.isCancelled stage = dump.isCancelled stage) :
    after.HasCancelled job (actions ++ [action]) := by
  obtain ⟨⟨earlier, before, unseen⟩, set⟩ := cancelled
  refine ⟨⟨earlier, before.trans (List.prefix_append _ _), outstanding.trans unseen⟩, fun stage => ?_⟩
  rw [tokens, outstanding]
  exact set stage

/-- A coordinator that has seen all stages end has nobody to cancel. -/
theorem hasCancelled_of_nil (none : dump.coordinator.outstanding = [])
    (unseen : dump.coordinator.outstanding = job.unseen actions)
    (clear : ∀ stage, dump.isCancelled stage = false) : dump.HasCancelled job actions := by
  refine ⟨⟨actions, List.prefix_rfl, unseen⟩, fun stage => ?_⟩
  rw [clear, none]
  exact ⟨by rintro ⟨⟩, fun member => absurd member List.not_mem_nil⟩

/-- A step that the coordinator has no part in. -/
theorem Cancels.of_same (cancels : dump.Cancels job actions) (other : ∀ stage, action ≠ .join stage)
    (coordinator : after.coordinator = dump.coordinator)
    (tokens : ∀ stage, after.isCancelled stage = dump.isCancelled stage) :
    after.Cancels job (actions ++ [action]) := by
  have outstanding := congrArg Coordinator.outstanding coordinator
  have same : job.unseen (actions ++ [action]) = job.unseen actions := Job.unseen_append other
  unfold Cancels at cancels ⊢
  rw [coordinator]
  cases phase : dump.coordinator.phase with
  | cancelling cause left =>
    simp only [phase] at cancels ⊢
    obtain ⟨unseen, done, split, set⟩ := cancels
    refine ⟨same ▸ unseen, done, split, fun stage => ?_⟩
    rw [tokens]
    exact set stage
  | shuttingDown cause left =>
    simp only [phase] at cancels ⊢
    exact ⟨same ▸ cancels.1, cancels.2.mono action outstanding tokens⟩
  | returned result =>
    simp only [phase] at cancels ⊢
    exact ⟨same ▸ cancels.1, cancels.2.mono action outstanding tokens⟩
  | _ =>
    simp only [phase] at cancels ⊢
    exact ⟨same ▸ cancels.1, fun stage => (tokens stage).trans (cancels.2 stage)⟩

theorem Cancels.join (cancels : dump.Cancels job actions) (step : dump.Joins stage after) :
    after.Cancels job (actions ++ [.join stage]) := by
  cases step with
  | download phase | worker phase =>
    simp only [Cancels, phase] at cancels
    simp only [Cancels, withCoordinator_coordinator, Coordinator.joinDownload,
      Coordinator.noteWorker, Coordinator.tell, Coordinator.strike, phase, Job.unseen_join]
    exact ⟨congrArg _ cancels.1, cancels.2⟩
  | lastWorker phase | storer phase | badly phase =>
    simp only [Cancels, phase] at cancels
    simp only [Cancels, withCoordinator_coordinator, Coordinator.noteWorker, Coordinator.joinStorer,
      Coordinator.goTo, Coordinator.tell, Coordinator.strike, Job.unseen_join]
    exact ⟨congrArg _ cancels.1, cancels.2⟩
  | late phase =>
    simp only [Cancels, phase] at cancels
    simp only [Cancels, withCoordinator_coordinator, Coordinator.goTo, Job.unseen_join]
    exact ⟨congrArg _ cancels.1, cancels.2.mono _ rfl fun _ => rfl⟩

theorem Cancels.coordinate (cancels : dump.Cancels job actions) (ends : dump.Ends job)
    (within : dump.coordinator.outstanding ⊆ job.stages)
    (knows : dump.coordinator.IsCalm → dump.Knows)
    (step : dump.Coordinates assured time files after changed) :
    after.Cancels job (actions ++ [.coordinate]) := by
  have same : job.unseen (actions ++ [.coordinate]) = job.unseen actions :=
    Job.unseen_append (by rintro _ ⟨⟩)
  -- the coordinator goes on from the closing of the store
  have closes (phase : dump.coordinator.phase = .closing) :
      job.unseen (actions ++ [.coordinate]) = [] ∧
        dump.HasCancelled job (actions ++ [.coordinate]) := by
    have none := (knows (by simp only [Coordinator.IsCalm, phase])).next
    simp only [IsAtNext, phase] at none
    simp only [Cancels, phase] at cancels
    rw [same, ← cancels.1]
    exact ⟨none, hasCancelled_of_nil none (same ▸ cancels.1) cancels.2⟩
  have kept := step.outstanding_eq
  cases step with
  | aborted phase =>
    simp only [Cancels, phase] at cancels
    refine ⟨same ▸ cancels.1, [], rfl, fun stage => ?_⟩
    rw [isCancelled_withCoordinator, cancels.2]
    exact ⟨by rintro ⟨⟩, fun member => absurd member List.not_mem_nil⟩
  | @cancelled cause stage left phase =>
    simp only [Cancels, phase] at cancels
    obtain ⟨unseen, done, split, set⟩ := cancels
    refine ⟨same ▸ unseen, done ++ [stage], ?_, fun other => ?_⟩
    · rw [withCoordinator_coordinator]
      simp only [Coordinator.goTo, split, List.append_assoc, List.singleton_append]
    · have member : stage ∈ job.stages := within (split ▸ List.mem_append_right _ List.mem_cons_self)
      have here : ∀ id, stage = .transform id → id < dump.workers.length := by
        rintro id rfl
        rw [ends.length_eq]
        simpa [Job.stages] using member
      rw [isCancelled_withCoordinator, isCancelled_cancel_iff here, set, List.mem_append,
        List.mem_singleton]
  | allCancelled phase =>
    simp only [Cancels, phase] at cancels
    obtain ⟨unseen, done, split, set⟩ := cancels
    refine ⟨same ▸ unseen, ⟨actions, List.prefix_append _ _, unseen⟩, fun stage => ?_⟩
    rw [List.append_nil] at split
    exact split ▸ set stage
  | gaveUp phase =>
    simp only [Cancels, phase] at cancels
    exact ⟨same ▸ cancels.1.symm, cancels.2.mono _ rfl fun _ => rfl⟩
  | closed phase => exact closes phase
  | closeFailed phase => exact closes phase
  | closedNothing phase => exact closes phase
  | _ =>
    simp only [Cancels, ‹dump.coordinator.phase = _›] at cancels
    exact ⟨kept.trans (same ▸ cancels.1), cancels.2⟩

theorem cancels_start (job : Job σ) (writer : Store.Writer) (time : Moment) :
    (start job writer time).Cancels job [] := by
  refine ⟨(List.filter_eq_self.mpr fun _ _ => rfl).symm, fun stage => ?_⟩
  cases stage with
  | transform id =>
    simp only [isCancelled, start, List.getElem?_map, Option.any_map]
    cases (List.range job.settings.workers)[id]? <;> rfl
  | _ => rfl

variable [RecordSource σ]

theorem Cancels.move (cancels : dump.Cancels job actions) (ends : dump.Ends job)
    (within : dump.coordinator.outstanding ⊆ job.stages)
    (knows : dump.coordinator.IsCalm → dump.Knows)
    (step : Moves job assured time dump files action after changed) :
    after.Cancels job (actions ++ [action]) := by
  have tokens (other : Stage) (apart : action ≠ .coordinate) :
      after.isCancelled other = dump.isCancelled other := step.isCancelled_eq apart
  cases step with
  | download step => exact cancels.of_same (by rintro _ ⟨⟩) rfl fun _ => tokens _ (by rintro ⟨⟩)
  | worker here step => exact cancels.of_same (by rintro _ ⟨⟩) rfl fun _ => tokens _ (by rintro ⟨⟩)
  | storer step => exact cancels.of_same (by rintro _ ⟨⟩) rfl fun _ => tokens _ (by rintro ⟨⟩)
  | join step => exact cancels.join step
  | coordinate step => exact cancels.coordinate ends within knows step

/-! ## Waiting for the stages -/

omit [RecordSource σ] in
theorem Joins.isOver (step : dump.Joins stage after) : (dump.outcome? stage).isSome := by
  cases step with
  | download phase here isOver => simp [outcome?, Download.outcome?, isOver]
  | worker phase here there isOver => simp [outcome?, there, Worker.outcome?, isOver]
  | lastWorker phase here there isOver => simp [outcome?, there, Worker.outcome?, isOver]
  | storer phase here isOver => simp [outcome?, Storer.outcome?, isOver]
  | badly phase here outcome => rw [outcome, Option.isSome_some]
  | late phase here outcome => exact outcome

theorem Moves.joined (step : Moves job assured time dump files (.join stage) after changed) :
    (dump.outcome? stage).isSome := by
  cases step with
  | join step => exact step.isOver

/-- The coordinator waits for those stages that are not over yet, all of which are to stop, or it has
returned and all are over. -/
structure Drains (job : Job σ) (cause : Error) (dump : Dump σ) : Prop where
  stops : ∀ stage ∈ job.stages, dump.Stops stage
  waits : (∃ left, dump.coordinator.phase = .shuttingDown cause left ∧ left ⊆ job.stages ∧
      ∀ stage ∈ job.stages, stage ∉ left → (dump.outcome? stage).isSome) ∨
    dump.coordinator.phase = .returned (.error cause) ∧
      ∀ stage ∈ job.stages, (dump.outcome? stage).isSome

variable {cause : Error}

omit [RecordSource σ] in
theorem Drains.cancel (drains : dump.Drains job cause) (other : Stage) :
    (dump.cancel other).Drains job cause := by
  refine ⟨fun stage member => (drains.stops stage member).cancel other, ?_⟩
  simp only [cancel_coordinator, outcome?_cancel]
  exact drains.waits

theorem Drains.move (drains : dump.Drains job cause)
    (step : Moves job assured time dump files action after changed) : after.Drains job cause := by
  have isOver (stage : Stage) (ended : (dump.outcome? stage).isSome) :
      (after.outcome? stage).isSome := step.isOver ended
  refine ⟨fun stage member => step.stops (drains.stops stage member), ?_⟩
  rcases drains.waits with ⟨left, phase, within, others⟩ | ⟨phase, all⟩
  · have stays (same : after.coordinator.phase = dump.coordinator.phase) :
        ∃ left, after.coordinator.phase = .shuttingDown cause left ∧ left ⊆ job.stages ∧
          ∀ stage ∈ job.stages, stage ∉ left → (after.outcome? stage).isSome :=
      ⟨left, same.trans phase, within, fun stage member gone =>
        isOver stage (others stage member gone)⟩
    cases step with
    | download step => exact .inl (stays rfl)
    | worker here step => exact .inl (stays rfl)
    | storer step => exact .inl (stays rfl)
    | @join stage _ step =>
      cases step with
      | late now here outcome =>
        cases phase.symm.trans now
        refine .inl ⟨_, rfl, fun other member => within (List.mem_of_mem_filter member), ?_⟩
        intro other member gone
        by_cases same : other = stage
        · exact isOver other (same ▸ outcome)
        · refine isOver other (others other member fun there => gone ?_)
          exact List.mem_filter.mpr ⟨there, bne_iff_ne.mpr same⟩
      | _ => cases phase.symm.trans ‹dump.coordinator.phase = _›
    | coordinate step =>
      cases step with
      | gaveUp now =>
        cases phase.symm.trans now
        exact .inr ⟨rfl, fun stage member =>
          isOver stage (others stage member List.not_mem_nil)⟩
      | _ => cases phase.symm.trans ‹dump.coordinator.phase = _›
  · refine .inr ⟨?_, fun stage member => isOver stage (all stage member)⟩
    cases step with
    | join step => cases step <;> cases phase.symm.trans ‹dump.coordinator.phase = _›
    | coordinate step => cases step <;> cases phase.symm.trans ‹dump.coordinator.phase = _›
    | _ => exact phase

/-- As long as the coordinator waits, somebody can take a step. -/
theorem Drains.returned (drains : dump.Drains job cause)
    (stuck : ∀ action, ¬ dump.Enables job action) :
    dump.coordinator.phase = .returned (.error cause) ∧
      ∀ stage ∈ job.stages, (dump.outcome? stage).isSome := by
  refine drains.waits.resolve_left ?_
  rintro ⟨left, phase, within, others⟩
  cases left with
  | nil =>
    refine stuck .coordinate ?_
    simp only [Enables, step?, coordinate?, phase, Option.isSome_some]
  | cons stage left =>
    have member := within List.mem_cons_self
    cases outcome : dump.outcome? stage with
    | none =>
      have set := (drains.stops stage member).resolve_right (by rw [outcome]; rintro ⟨⟩)
      obtain ⟨action, -, enabled⟩ := exists_enables_of_cancelled set outcome
      exact stuck action enabled
    | some ended =>
      refine stuck (.join stage) ?_
      simp only [Enables, step?, join?, phase, outcome, List.mem_cons, true_or, if_true,
        Option.map_some, Option.isSome_some]

end Dump

/-! ## Every run -/

variable [RecordSource σ] {job : Job σ} {assured : Prop} {files₀ : Files} {actions : List Action}
  {log : List (Nat × Record)} {world : World σ} {stage : Stage}

/-- In every world that is reached those tokens are set that have to be. -/
theorem Job.Reaches.cancels (reached : job.Reaches assured files₀ actions log world) :
    world.dump.Cancels job actions := by
  induction reached using Job.Reaches.rec_moves with
  | opened time started opens => exact Dump.cancels_start job _ started
  | move before _ step ih => exact ih.move before.ends before.outstanding_subset before.knows step

/-- A stage that has been seen to end is over. -/
theorem Job.Reaches.isOver (reached : job.Reaches assured files₀ actions log world)
    (seen : .join stage ∈ actions) : (world.dump.outcome? stage).isSome := by
  induction reached using Job.Reaches.rec_moves with
  | opened time started opens => exact absurd seen List.not_mem_nil
  | @move actions log world action after time before _ step ih =>
    refine step.isOver ?_
    rcases List.mem_append.mp seen with earlier | now
    · exact ih earlier
    · cases List.mem_singleton.mp now
      exact step.joined

/-- A coordinator that waits for the stages that it has cancelled waits for all that go on. -/
theorem Job.Reaches.drains {cause : Error} {left : List Stage}
    (reached : job.Reaches assured files₀ actions log world)
    (phase : world.dump.coordinator.phase = .shuttingDown cause left) :
    world.dump.Drains job cause := by
  have cancels := reached.cancels
  simp only [Dump.Cancels, phase] at cancels
  obtain ⟨unseen, ⟨earlier, before, outstanding⟩, set⟩ := cancels
  refine ⟨fun stage member => ?_, .inl ⟨left, phase, fun stage member => ?_,
    fun stage member gone => ?_⟩⟩
  · by_cases seen : .join stage ∈ earlier
    · exact .inr (reached.isOver (before.subset seen))
    · refine .inl ((set stage).mpr ?_)
      rw [outstanding]
      exact List.mem_filter.mpr ⟨member, decide_eq_true seen⟩
  · rw [unseen] at member
    exact List.mem_of_mem_filter member
  · refine reached.isOver ?_
    by_contra unjoined
    rw [unseen] at gone
    exact gone (List.mem_filter.mpr ⟨member, decide_eq_true unjoined⟩)

theorem World.Leads.drains {cause : Error} {taken : List Action} {moved : List Stage}
    {later : World σ} (leads : world.Leads job assured taken moved later)
    (ends : world.dump.Ends job) (drains : world.dump.Drains job cause) :
    later.dump.Drains job cause := by
  induction leads using World.Leads.rec_moves with
  | here => exact drains
  | move before step known moves ih => exact ih.move moves
  | cancel other before ih => exact ih.cancel other
  | ends => exact ends

namespace Job

/-- The small job with a source that fails. -/
def broken (workers : Nat) : Job Source :=
  { small workers with source := .predefined { lists := [], failure := some "read timed out" } }

end Job

end TreeExport

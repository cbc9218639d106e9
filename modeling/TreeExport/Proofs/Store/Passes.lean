import TreeExport.Proofs.Store.Inputs
import TreeExport.Proofs.Store.Names

/-!
# Merging in passes is merging at once

Whatever the number of files and the fan-in, a merge in passes comes to the stable sort of the
entries of all files, and takes away every file that it makes on the way.  `settles_passes` is by
induction on the passes: a pass replaces consecutive files by one that holds the stable sort of
their entries, which leaves the stable sort of all entries as it is, and refuses a file exactly if a
merge of all files at once would.
-/

namespace TreeExport

open Files (home goal Leads Overwrites)

variable {time : Moment} {files : Files} {directory : String}

/-! ## Groups -/

theorem flatten_groupsOf {α : Type} (size : Nat) (items : List α) :
    (groupsOf size items).flatten = items := by
  fun_induction groupsOf size items with
  | case1 => rfl
  | case2 item rest ih =>
    rw [List.flatten_cons, ih, List.cons_append, List.take_append_drop]

theorem groupsOf_map {α β : Type} (f : α → β) (size : Nat) (items : List α) :
    groupsOf size (items.map f) = (groupsOf size items).map (List.map f) := by
  fun_induction groupsOf size items with
  | case1 => simp only [List.map_nil, groupsOf]
  | case2 item rest ih =>
    simp only [List.map_cons, groupsOf, List.map_take, ← List.map_drop, ih]

/-! ## One pass -/

/-- Files that a pass merges, and the name of the file that they are merged into. -/
structure GroupMerge where
  inputs : List MergeInput
  name : String

namespace GroupMerge

/-- The file that a merge makes. -/
def result (directory : String) (merge : GroupMerge) : MergeInput :=
  .ofRun directory merge.name (MergeInput.sortAll merge.inputs)

/-- The place of the file that a merge makes. -/
def aim (working : Location) (directory : String) (merge : GroupMerge) : Location :=
  home working directory ++ [merge.name]

/-- The step that a merge is. -/
def step (directory : String) (disposable : Bool) (merge : GroupMerge) : MergeStep :=
  ⟨merge.inputs.map MergeInput.path, Path.join directory merge.name, disposable⟩

/-- All files that some merges start from. -/
def sources (merges : List GroupMerge) : List MergeInput :=
  merges.flatMap inputs

theorem places_sources_cons (working : Location) (merge : GroupMerge) (rest : List GroupMerge) :
    MergeInput.places working (sources (merge :: rest)) =
      MergeInput.places working merge.inputs ++ MergeInput.places working (sources rest) := by
  rw [sources, List.flatMap_cons, MergeInput.places, List.map_append]
  rfl

/-- The place of a file that some merges make, or of one that they start from and remove. -/
def Touches (working : Location) (directory : String) (disposable : Bool)
    (merges : List GroupMerge) (place : Location) : Prop :=
  (∃ merge ∈ merges, place = merge.aim working directory) ∨
    disposable = true ∧ place ∈ MergeInput.places working (sources merges)

theorem Touches.head {working : Location} {disposable : Bool} {merge : GroupMerge}
    {place : Location} (touches : Touches working directory disposable [merge] place)
    (rest : List GroupMerge) : Touches working directory disposable (merge :: rest) place := by
  rw [Touches, places_sources_cons] at touches ⊢
  rcases touches with ⟨other, member, same⟩ | ⟨spare, member⟩
  · exact .inl ⟨other, List.mem_cons.mpr (.inl (List.mem_singleton.mp member)), same⟩
  · rcases List.mem_append.mp member with early | none
    · exact .inr ⟨spare, List.mem_append_left _ early⟩
    · exact absurd none List.not_mem_nil

theorem Touches.tail {working : Location} {disposable : Bool} {rest : List GroupMerge}
    {place : Location} (touches : Touches working directory disposable rest place)
    (merge : GroupMerge) : Touches working directory disposable (merge :: rest) place := by
  rw [Touches, places_sources_cons]
  rcases touches with ⟨other, member, same⟩ | ⟨spare, member⟩
  · exact .inl ⟨other, List.mem_cons_of_mem _ member, same⟩
  · exact .inr ⟨spare, List.mem_append_right _ member⟩

end GroupMerge

namespace MergePlan

/-- Files that can be removed: each is named in a directory, and they are at different places. -/
structure Spare (working : Location) (directory : String) (inputs : List MergeInput) : Prop where
  named : ∀ input ∈ inputs, ∃ name, Path.IsName name ∧ input.path = Path.join directory name
  nodup : (MergeInput.places working inputs).Nodup

/-- The files that merges make are apart from one another and from those that the merges start
from, and these can be removed if they are to be. -/
structure Layout (working : Location) (directory : String) (disposable : Bool)
    (merges : List GroupMerge) : Prop where
  isName : ∀ merge ∈ merges, Path.IsName merge.name
  nodup : (merges.map GroupMerge.name).Nodup
  apart : ∀ merge ∈ merges,
    merge.aim working directory ∉ MergeInput.places working (GroupMerge.sources merges)
  spare : disposable = true → Spare working directory (GroupMerge.sources merges)

namespace Layout

variable {working : Location} {disposable : Bool} {merge : GroupMerge} {rest : List GroupMerge}

theorem head (layout : Layout working directory disposable (merge :: rest)) :
    Layout working directory disposable [merge] where
  isName other member := layout.isName other (by simpa using .inl (List.mem_singleton.mp member))
  nodup := List.nodup_singleton _
  apart other member inside := by
    obtain rfl := List.mem_singleton.mp member
    refine layout.apart other List.mem_cons_self ?_
    rw [GroupMerge.places_sources_cons]
    rw [GroupMerge.sources, List.flatMap_singleton] at inside
    exact List.mem_append_left _ inside
  spare disposed := by
    obtain ⟨named, nodup⟩ := layout.spare disposed
    rw [GroupMerge.places_sources_cons] at nodup
    rw [GroupMerge.sources, List.flatMap_singleton]
    exact ⟨fun input member => named input (List.mem_append_left _ member),
      (List.nodup_append.mp nodup).1⟩

theorem tail (layout : Layout working directory disposable (merge :: rest)) :
    Layout working directory disposable rest where
  isName other member := layout.isName other (List.mem_cons_of_mem _ member)
  nodup := (List.nodup_cons.mp layout.nodup).2
  apart other member inside := by
    refine layout.apart other (List.mem_cons_of_mem _ member) ?_
    rw [GroupMerge.places_sources_cons]
    exact List.mem_append_right _ inside
  spare disposed := by
    obtain ⟨named, nodup⟩ := layout.spare disposed
    rw [GroupMerge.places_sources_cons] at nodup
    exact ⟨fun input member => named input (List.mem_append_right _ member),
      (List.nodup_append.mp nodup).2.1⟩

/-- What the first merge makes is left alone by those after it. -/
theorem aim_untouched (layout : Layout working directory disposable (merge :: rest)) :
    ¬ GroupMerge.Touches working directory disposable rest (merge.aim working directory) := by
  rintro (⟨other, member, same⟩ | ⟨-, member⟩)
  · obtain same : merge.name = other.name := by simpa [GroupMerge.aim] using same
    exact (List.nodup_cons.mp layout.nodup).1 (same ▸ List.mem_map_of_mem member)
  · refine layout.apart merge List.mem_cons_self ?_
    rw [GroupMerge.places_sources_cons]
    exact List.mem_append_right _ member

/-- What the first merge removes is left alone by those after it. -/
theorem input_untouched (layout : Layout working directory disposable (merge :: rest))
    (disposed : disposable = true) {place : Location}
    (inside : place ∈ MergeInput.places working merge.inputs) :
    ¬ GroupMerge.Touches working directory disposable rest place := by
  rintro (⟨other, member, rfl⟩ | ⟨-, member⟩)
  · refine layout.apart other (List.mem_cons_of_mem _ member) ?_
    rw [GroupMerge.places_sources_cons]
    exact List.mem_append_left _ inside
  · have nodup := (layout.spare disposed).nodup
    rw [GroupMerge.places_sources_cons] at nodup
    exact (List.nodup_append.mp nodup).2.2 place inside place member rfl

/-- The first merge leaves alone what those after it start from. -/
theorem source_untouched (layout : Layout working directory disposable (merge :: rest))
    {place : Location} (inside : place ∈ MergeInput.places working (GroupMerge.sources rest)) :
    ¬ GroupMerge.Touches working directory disposable [merge] place := by
  rintro (⟨other, member, rfl⟩ | ⟨disposed, member⟩)
  · obtain rfl := List.mem_singleton.mp member
    refine layout.apart other List.mem_cons_self ?_
    rw [GroupMerge.places_sources_cons]
    exact List.mem_append_right _ inside
  · have nodup := (layout.spare disposed).nodup
    rw [GroupMerge.places_sources_cons] at nodup
    rw [GroupMerge.sources, List.flatMap_singleton] at member
    exact (List.nodup_append.mp nodup).2.2 place member place inside rfl

end Layout

theorem runSteps_append (steps more : List MergeStep) :
    runSteps (steps ++ more) = runSteps steps >>= fun _ => runSteps more := by
  induction steps with
  | nil => rfl
  | cons step rest ih =>
    rw [List.cons_append, runSteps, runSteps, ih]
    split <;> simp only [bind_assoc]

/-- One merge of a pass. -/
theorem settles_step {disposable : Bool} {merge : GroupMerge}
    (supplied : ∀ input ∈ merge.inputs, files.Supplies input)
    (layout : Layout files.working directory disposable [merge]) :
    (runSteps [merge.step directory disposable]).Settles time files
      (∀ input ∈ merge.inputs, input.IsSound) fun _ after =>
        after.Supplies (merge.result directory) ∧
        (disposable = true → ∀ place ∈ MergeInput.places files.working merge.inputs,
          after.get? place = none) ∧
        Overwrites (GroupMerge.Touches files.working directory disposable [merge]) files after := by
  have isName := layout.isName merge List.mem_cons_self
  have aim := Files.goal_join files.working directory isName
  have apart : merge.aim files.working directory ∉
      MergeInput.places files.working merge.inputs := by
    have whole := layout.apart merge List.mem_cons_self
    rwa [GroupMerge.sources, List.flatMap_singleton] at whole
  have leads := Files.leads_join files.working directory isName
  rw [runSteps]
  simp only [GroupMerge.step]
  refine FileTask.achieves_change.bindSettles fun _ created changes => ?_
  obtain ⟨fresh, first⟩ := Files.create_ok leads changes
  have suppliedCreated : ∀ input ∈ merge.inputs, created.Supplies input := fun input member =>
    (supplied input member).of_overwrites first fun same =>
      apart (List.mem_map.mpr ⟨input, member, same⟩)
  have freshCreated : created.get? (goal created.working
      (⟨Path.join directory merge.name, 0, {}⟩ : Output).path) = some (.file []) := by
    rw [first.working, aim]
    exact fresh
  refine (settles_mergeInto freshCreated suppliedCreated).discard.bindAchieves ?_
  rintro sound _ merged ⟨_, -, now, second⟩
  rw [first.working, aim, List.nil_append] at now
  rw [first.working, aim] at second
  have made : Overwrites (GroupMerge.Touches files.working directory disposable [merge]) files
      merged :=
    (first.trans second).mono fun place same => .inl ⟨merge, List.mem_cons_self, same⟩
  have supplies : merged.Supplies (merge.result directory) := by
    unfold Files.Supplies
    rw [made.working, GroupMerge.result, MergeInput.goal_ofRun _ _ isName]
    exact now
  cases disposable with
  | false => exact FileTask.achieves_pure ⟨supplies, nofun, made⟩
  | true =>
    have named : ∀ input ∈ merge.inputs, ∃ name, Path.IsName name ∧
        input.path = Path.join directory name := fun input member =>
      (layout.spare rfl).named input (List.mem_flatMap.mpr ⟨merge, List.mem_cons_self, member⟩)
    refine (achieves_removeAll named).bind fun _ cleared removed => FileTask.achieves_pure ?_
    obtain ⟨gone, third⟩ := removed
    rw [made.working] at gone third
    refine ⟨supplies.of_overwrites third ?_, fun _ => gone, made.trans (third.mono ?_)⟩
    · rw [made.working, GroupMerge.result, MergeInput.goal_ofRun _ _ isName]
      exact apart
    · intro place member
      refine .inr ⟨rfl, ?_⟩
      rwa [GroupMerge.sources, List.flatMap_singleton]

/-- A pass leaves a file for each group, with the stable sort of the entries of the group. -/
theorem settles_pass {disposable : Bool} {merges : List GroupMerge}
    (supplied : ∀ input ∈ GroupMerge.sources merges, files.Supplies input)
    (layout : Layout files.working directory disposable merges) :
    (runSteps (merges.map (GroupMerge.step directory disposable))).Settles time files
      (∀ input ∈ GroupMerge.sources merges, input.IsSound) fun _ after =>
        (∀ merge ∈ merges, after.Supplies (merge.result directory)) ∧
        (disposable = true →
          ∀ place ∈ MergeInput.places files.working (GroupMerge.sources merges),
            after.get? place = none) ∧
        Overwrites (GroupMerge.Touches files.working directory disposable merges) files after := by
  induction merges generalizing files with
  | nil =>
    exact (FileTask.achieves_pure ⟨fun _ none => absurd none List.not_mem_nil,
      fun _ _ none => absurd none List.not_mem_nil, .refl _ _⟩).settles
      fun _ none => absurd none List.not_mem_nil
  | cons merge rest ih =>
    have all : GroupMerge.sources (merge :: rest) = merge.inputs ++ GroupMerge.sources rest :=
      List.flatMap_cons
    rw [List.map_cons, ← List.singleton_append, runSteps_append, all]
    refine ((settles_step (fun input member => supplied input ?_) layout.head).bind
      fun _ _ middle here => ?_).congr List.forall_mem_append.symm
    · rw [all]
      exact List.mem_append_left _ member
    obtain ⟨suppliesFirst, goneFirst, first⟩ := here
    have suppliedRest : ∀ input ∈ GroupMerge.sources rest, middle.Supplies input := by
      intro input member
      refine (supplied input ?_).of_overwrites first ?_
      · rw [all]
        exact List.mem_append_right _ member
      · exact layout.source_untouched (List.mem_map_of_mem member)
    refine (ih suppliedRest (first.working ▸ layout.tail)).mono ?_
    rintro _ after - ⟨suppliesRest, goneRest, later⟩
    rw [first.working] at goneRest later
    refine ⟨fun other member => ?_, fun disposed place member => ?_, ?_⟩
    · rcases List.mem_cons.mp member with rfl | inRest
      · refine suppliesFirst.of_overwrites later ?_
        rw [first.working, GroupMerge.result,
          MergeInput.goal_ofRun _ _ (layout.isName other List.mem_cons_self)]
        exact layout.aim_untouched
      · exact suppliesRest other inRest
    · rw [← all, GroupMerge.places_sources_cons] at member
      rcases List.mem_append.mp member with early | late
      · rw [later.same place (layout.input_untouched disposed early)]
        exact goneFirst disposed place early
      · exact goneRest disposed place late
    · exact (first.mono fun place touches => touches.head rest).trans
        (later.mono fun place touches => touches.tail merge)

/-! ## All passes -/

/-- The merges of a pass. -/
def groupMerges (fanIn pass : Nat) (inputs : List MergeInput) : List GroupMerge :=
  let groups := groupsOf (fanIn + 1) inputs
  (groups.zip (List.range groups.length)).map fun (group, index) =>
    ⟨group, Store.mergeName pass index⟩

variable {fanIn pass : Nat} {disposable : Bool} {inputs : List MergeInput}

theorem map_inputs_groupMerges (fanIn pass : Nat) (inputs : List MergeInput) :
    (groupMerges fanIn pass inputs).map GroupMerge.inputs = groupsOf (fanIn + 1) inputs := by
  rw [groupMerges, List.map_map]
  exact List.map_fst_zip (Nat.le_of_eq List.length_range.symm)

theorem sources_groupMerges (fanIn pass : Nat) (inputs : List MergeInput) :
    GroupMerge.sources (groupMerges fanIn pass inputs) = inputs := by
  rw [GroupMerge.sources, List.flatMap_def, map_inputs_groupMerges, flatten_groupsOf]

theorem mem_of_mem_groupMerges {merge : GroupMerge} (member : merge ∈ groupMerges fanIn pass inputs)
    {input : MergeInput} (inside : input ∈ merge.inputs) : input ∈ inputs := by
  rw [← sources_groupMerges fanIn pass inputs]
  exact List.mem_flatMap.mpr ⟨merge, member, inside⟩

theorem map_name_groupMerges (fanIn pass : Nat) (inputs : List MergeInput) :
    (groupMerges fanIn pass inputs).map GroupMerge.name =
      (List.range (groupsOf (fanIn + 1) inputs).length).map (Store.mergeName pass) := by
  have names : ((groupsOf (fanIn + 1) inputs).zip
      (List.range (groupsOf (fanIn + 1) inputs).length)).map Prod.snd =
        List.range (groupsOf (fanIn + 1) inputs).length :=
    List.map_snd_zip (Nat.le_of_eq List.length_range)
  conv_rhs => rw [← names, List.map_map]
  rw [groupMerges, List.map_map]
  rfl

theorem length_groupMerges (fanIn pass : Nat) (inputs : List MergeInput) :
    (groupMerges fanIn pass inputs).length = (groupsOf (fanIn + 1) inputs).length := by
  rw [← map_inputs_groupMerges fanIn pass, List.length_map]

theorem exists_name_of_mem {merge : GroupMerge} (member : merge ∈ groupMerges fanIn pass inputs) :
    ∃ group, merge.name = Store.mergeName pass group := by
  obtain ⟨⟨group, index⟩, -, rfl⟩ := List.mem_map.mp member
  exact ⟨index, rfl⟩

/-- Files that are more than are merged at once go through one pass and then those after it. -/
theorem passes_of_many (many : fanIn + 2 < inputs.length) :
    passes directory fanIn pass disposable (inputs.map MergeInput.path) =
      { passes directory fanIn (pass + 1) true
          (((groupMerges fanIn pass inputs).map (GroupMerge.result directory)).map
            MergeInput.path) with
        steps := (groupMerges fanIn pass inputs).map (GroupMerge.step directory disposable) ++
          (passes directory fanIn (pass + 1) true
            (((groupMerges fanIn pass inputs).map (GroupMerge.result directory)).map
              MergeInput.path)).steps } := by
  have manyFiles : fanIn + 2 < (inputs.map MergeInput.path).length := by
    rwa [List.length_map]
  have outputs : (List.range (groupsOf (fanIn + 1) inputs).length).map
      (intermediatePath directory pass) =
        ((groupMerges fanIn pass inputs).map (GroupMerge.result directory)).map
          MergeInput.path := by
    have paths : ((groupMerges fanIn pass inputs).map (GroupMerge.result directory)).map
        MergeInput.path =
          ((groupMerges fanIn pass inputs).map GroupMerge.name).map (Path.join directory) := by
      rw [List.map_map, List.map_map]
      rfl
    rw [paths, map_name_groupMerges, List.map_map]
    rfl
  have steps : ((groupsOf (fanIn + 1) (inputs.map MergeInput.path)).zip
      ((List.range (groupsOf (fanIn + 1) inputs).length).map (intermediatePath directory pass))).map
        (fun pair => (⟨pair.1, pair.2, disposable⟩ : MergeStep)) =
      (groupMerges fanIn pass inputs).map (GroupMerge.step directory disposable) := by
    rw [groupsOf_map, List.zip_map, groupMerges, List.map_map, List.map_map]
    rfl
  rw [passes, dif_pos manyFiles, ← steps, ← outputs]
  simp only [groupsOf_map, List.length_map]

theorem isSound_results (sound : ∀ input ∈ inputs, input.IsSound) : ∀ input ∈
    (groupMerges fanIn pass inputs).map (GroupMerge.result directory), input.IsSound := by
  intro input member
  obtain ⟨merge, inside, rfl⟩ := List.mem_map.mp member
  exact MergeInput.isSound_ofRun (MergeInput.isRun_sortAll fun source here =>
    sound source (mem_of_mem_groupMerges inside here))

/-- A pass leaves the stable sort of all entries as it is. -/
theorem sortAll_results (sound : ∀ input ∈ inputs, input.IsSound) :
    MergeInput.sortAll ((groupMerges fanIn pass inputs).map (GroupMerge.result directory)) =
      MergeInput.sortAll inputs := by
  have read : ∀ merge ∈ groupMerges fanIn pass inputs,
      (merge.result directory).reading.entries = stableSort StoredEntry.path
        (merge.inputs.flatMap fun input => input.reading.entries) := by
    intro merge member
    have run := MergeInput.isRun_sortAll fun input inside =>
      sound input (mem_of_mem_groupMerges member inside)
    rw [GroupMerge.result, MergeInput.reading_ofRun run]
    rfl
  calc MergeInput.sortAll ((groupMerges fanIn pass inputs).map (GroupMerge.result directory))
      = stableSort StoredEntry.path ((((groupMerges fanIn pass inputs).map GroupMerge.inputs).map
          (List.flatMap fun input => input.reading.entries)).map
            (stableSort StoredEntry.path)).flatten := by
        rw [MergeInput.sortAll, List.flatMap_map, List.flatMap_def, List.map_congr_left read,
          List.map_map, List.map_map]
        rfl
    _ = stableSort StoredEntry.path ((groupsOf (fanIn + 1) inputs).map
          (List.flatMap fun input => input.reading.entries)).flatten := by
        rw [stableSort_flatten_map, map_inputs_groupMerges]
    _ = MergeInput.sortAll inputs := by
        conv_rhs =>
          rw [MergeInput.sortAll, ← flatten_groupsOf (fanIn + 1) inputs, List.flatMap_def,
            List.map_flatten, List.flatten_flatten, List.map_map]
        rfl

/-- The place is that of an intermediate file of a pass from the given one on. -/
def IsMergePlace (working : Location) (directory : String) (pass : Nat) (place : Location) : Prop :=
  ∃ later group, pass ≤ later ∧
    place = home working directory ++ [Store.mergeName later group]

theorem IsMergePlace.of_succ {working : Location} {place : Location}
    (isPlace : IsMergePlace working directory (pass + 1) place) :
    IsMergePlace working directory pass place := by
  obtain ⟨later, group, after, same⟩ := isPlace
  exact ⟨later, group, by omega, same⟩

theorem isMergePlace_aim {working : Location} {merge : GroupMerge}
    (member : merge ∈ groupMerges fanIn pass inputs) :
    IsMergePlace working directory pass (merge.aim working directory) := by
  obtain ⟨group, name⟩ := exists_name_of_mem member
  exact ⟨pass, group, Nat.le_refl pass, by rw [GroupMerge.aim, name]⟩

/-- Later passes make no file of this pass. -/
theorem not_isMergePlace_aim {working : Location} {merge : GroupMerge}
    (member : merge ∈ groupMerges fanIn pass inputs) :
    ¬ IsMergePlace working directory (pass + 1) (merge.aim working directory) := by
  rintro ⟨later, group, after, same⟩
  obtain ⟨index, name⟩ := exists_name_of_mem member
  rw [GroupMerge.aim, name] at same
  have same : Store.mergeName pass index = Store.mergeName later group := by simpa using same
  have := (Store.mergeName_inj same).1
  omega

/-- The files of the passes to come are apart from the files that are merged and from the output,
and these from each other. -/
structure Site (working : Location) (directory : String) (pass : Nat) (disposable : Bool)
    (inputs : List MergeInput) (output : String) : Prop where
  fresh : ∀ place ∈ MergeInput.places working inputs, ¬ IsMergePlace working directory pass place
  freshOutput : ¬ IsMergePlace working directory pass (goal working output)
  aside : goal working output ∉ MergeInput.places working inputs
  spare : disposable = true → Spare working directory inputs

theorem places_results (working : Location) (directory : String) (fanIn pass : Nat)
    (inputs : List MergeInput) :
    MergeInput.places working
        ((groupMerges fanIn pass inputs).map (GroupMerge.result directory)) =
      (groupMerges fanIn pass inputs).map (GroupMerge.aim working directory) := by
  rw [MergeInput.places, List.map_map]
  refine List.map_congr_left fun merge member => ?_
  obtain ⟨group, name⟩ := exists_name_of_mem member
  refine MergeInput.goal_ofRun working directory ?_ _
  rw [name]
  exact Store.isName_mergeName pass group

theorem nodup_groupMerges (fanIn pass : Nat) (inputs : List MergeInput) :
    ((groupMerges fanIn pass inputs).map GroupMerge.name).Nodup := by
  rw [map_name_groupMerges]
  exact List.nodup_range.map fun _ _ same => (Store.mergeName_inj same).2

namespace Site

variable {working : Location} {output : String}

theorem layout (site : Site working directory pass disposable inputs output) :
    Layout working directory disposable (groupMerges fanIn pass inputs) where
  isName merge member := by
    obtain ⟨group, name⟩ := exists_name_of_mem member
    rw [name]
    exact Store.isName_mergeName pass group
  nodup := nodup_groupMerges fanIn pass inputs
  apart merge member inside := by
    rw [sources_groupMerges] at inside
    exact site.fresh _ inside (isMergePlace_aim member)
  spare disposed := by
    rw [sources_groupMerges]
    exact site.spare disposed

/-- The files that a pass makes go through the passes after it. -/
theorem next (site : Site working directory pass disposable inputs output) :
    Site working directory (pass + 1) true
      ((groupMerges fanIn pass inputs).map (GroupMerge.result directory)) output where
  fresh place member := by
    rw [places_results] at member
    obtain ⟨merge, inside, rfl⟩ := List.mem_map.mp member
    exact not_isMergePlace_aim inside
  freshOutput isPlace := site.freshOutput isPlace.of_succ
  aside member := by
    rw [places_results] at member
    obtain ⟨merge, inside, same⟩ := List.mem_map.mp member
    exact site.freshOutput (same ▸ isMergePlace_aim inside)
  spare _ := by
    refine ⟨fun input member => ?_, ?_⟩
    · obtain ⟨merge, inside, rfl⟩ := List.mem_map.mp member
      exact ⟨merge.name, site.layout.isName merge inside, rfl⟩
    · rw [places_results]
      have aims : (groupMerges fanIn pass inputs).map (GroupMerge.aim working directory) =
          ((groupMerges fanIn pass inputs).map GroupMerge.name).map
            fun name => home working directory ++ [name] := by
        rw [List.map_map]
        rfl
      rw [aims]
      exact (nodup_groupMerges fanIn pass inputs).map fun _ _ same => by simpa using same

end Site

/-- What a merge leaves behind: the stable sort of all entries in its output, and of everything
else what was there before, but for the files that it was to remove. -/
structure Leaves (files : Files) (directory : String) (pass : Nat) (disposable : Bool)
    (inputs : List MergeInput) (output : Output) (content : Bytes) (merged : Output)
    (after : Files) : Prop where
  result : merged = output.after (MergeInput.sortAll inputs)
  written : after.get? (goal files.working output.path) =
    some (.file (content ++ StoredEntry.encodeAll (MergeInput.sortAll inputs)))
  overwrites : Overwrites (fun place => place = goal files.working output.path ∨
    disposable = true ∧ place ∈ MergeInput.places files.working inputs ∨
    IsMergePlace files.working directory pass place) files after
  restored : ∀ place, IsMergePlace files.working directory pass place → files.HasNoFile place →
    after.get? place = files.get? place
  removed : disposable = true → ∀ place ∈ MergeInput.places files.working inputs,
    after.get? place = none

/-- The first pass over files. -/
theorem settles_first {output : String} (supplied : ∀ input ∈ inputs, files.Supplies input)
    (site : Site files.working directory pass disposable inputs output) :
    (runSteps ((groupMerges fanIn pass inputs).map (GroupMerge.step directory disposable))).Settles
      time files (∀ input ∈ inputs, input.IsSound) fun _ after =>
        (∀ input ∈ (groupMerges fanIn pass inputs).map (GroupMerge.result directory),
          after.Supplies input) ∧
        (disposable = true → ∀ place ∈ MergeInput.places files.working inputs,
          after.get? place = none) ∧
        Overwrites (GroupMerge.Touches files.working directory disposable
          (groupMerges fanIn pass inputs)) files after := by
  have suppliedSources : ∀ input ∈ GroupMerge.sources (groupMerges fanIn pass inputs),
      files.Supplies input := by
    rwa [sources_groupMerges]
  refine ((settles_pass suppliedSources site.layout).congr (by rw [sources_groupMerges])).mono ?_
  rintro _ after - ⟨supplies, removed, overwrites⟩
  rw [sources_groupMerges] at removed
  exact ⟨List.forall_mem_map.mpr supplies, removed, overwrites⟩

/-- The last merge of a plan. -/
theorem settles_last {output : Output} {content : Bytes}
    (there : files.get? (goal files.working output.path) = some (.file content))
    (supplied : ∀ input ∈ inputs, files.Supplies input)
    (site : Site files.working directory pass disposable inputs output.path) :
    (run ⟨[], inputs.map MergeInput.path, disposable⟩ output).Settles time files
      (∀ input ∈ inputs, input.IsSound)
      (Leaves files directory pass disposable inputs output content) := by
  have started : (runSteps []).Achieves time files fun _ after => files = after :=
    FileTask.achieves_pure rfl
  refine started.bindSettles ?_
  rintro _ _ rfl
  refine (settles_mergeInto there supplied).bindAchieves ?_
  rintro - _ merged ⟨rfl, now, first⟩
  cases disposable with
  | false =>
    refine FileTask.achieves_pure ⟨rfl, now, first.mono fun _ => .inl, ?_, nofun⟩
    intro place isPlace _
    exact first.same place fun same => site.freshOutput (same ▸ isPlace)
  | true =>
    refine (achieves_removeAll (site.spare rfl).named).bind fun _ after gone => ?_
    obtain ⟨removed, second⟩ := gone
    rw [first.working] at removed second
    refine FileTask.achieves_pure ⟨rfl, ?_, ?_, ?_, fun _ => removed⟩
    · rw [second.same _ site.aside]
      exact now
    · exact (first.mono fun _ => .inl).trans (second.mono fun _ member => .inr (.inl ⟨rfl, member⟩))
    · intro place isPlace _
      rw [second.same place fun member => site.fresh place member isPlace]
      exact first.same place fun same => site.freshOutput (same ▸ isPlace)

theorem run_append (steps : List MergeStep) (plan : MergePlan) (output : Output) :
    run { plan with steps := steps ++ plan.steps } output =
      runSteps steps >>= fun _ => run plan output := by
  rw [run, run, runSteps_append, bind_assoc]

/-- The place of the output is none that a pass touches. -/
theorem Site.output_untouched {working : Location} {output : String}
    (site : Site working directory pass disposable inputs output) :
    ¬ GroupMerge.Touches working directory disposable (groupMerges fanIn pass inputs)
      (goal working output) := by
  rintro (⟨merge, member, same⟩ | ⟨-, member⟩)
  · exact site.freshOutput (same ▸ isMergePlace_aim member)
  · rw [sources_groupMerges] at member
    exact site.aside member

/-- What a pass and those after it leave behind. -/
theorem Leaves.of_pass {output merged : Output} {content : Bytes} {passed after : Files}
    (site : Site files.working directory pass disposable inputs output.path)
    (sound : ∀ input ∈ inputs, input.IsSound)
    (removed : disposable = true → ∀ place ∈ MergeInput.places files.working inputs,
      passed.get? place = none)
    (first : Overwrites (GroupMerge.Touches files.working directory disposable
      (groupMerges fanIn pass inputs)) files passed)
    (leaves : Leaves passed directory (pass + 1) true
      ((groupMerges fanIn pass inputs).map (GroupMerge.result directory)) output content merged
      after) : Leaves files directory pass disposable inputs output content merged after := by
  obtain ⟨result, written, second, restored, gone⟩ := leaves
  rw [sortAll_results sound] at result written
  rw [first.working] at written second restored gone
  rw [places_results] at second gone
  -- a file that the pass makes is taken away by the one after it
  have aims : ∀ merge ∈ groupMerges fanIn pass inputs,
      after.get? (merge.aim files.working directory) = none := fun merge member =>
    gone rfl _ (List.mem_map_of_mem member)
  refine ⟨result, written, ?_, fun place isPlace absent => ?_, fun disposed place member => ?_⟩
  · refine (first.mono fun place touches => ?_).trans (second.mono fun place touches => ?_)
    · rcases touches with ⟨merge, member, rfl⟩ | ⟨disposed, member⟩
      · exact .inr (.inr (isMergePlace_aim member))
      · rw [sources_groupMerges] at member
        exact .inr (.inl ⟨disposed, member⟩)
    · rcases touches with same | ⟨-, member⟩ | isPlace
      · exact .inl same
      · obtain ⟨merge, inside, rfl⟩ := List.mem_map.mp member
        exact .inr (.inr (isMergePlace_aim inside))
      · exact .inr (.inr isPlace.of_succ)
  · by_cases made : ∃ merge ∈ groupMerges fanIn pass inputs,
        place = merge.aim files.working directory
    · obtain ⟨merge, member, rfl⟩ := made
      rw [aims merge member]
      cases stood : files.get? (merge.aim files.working directory) with
      | none => rfl
      | some node =>
        cases node with
        | file content => exact absurd stood (absent content)
        | directory =>
          have still := second.directories _ (first.directories _ stood)
          rw [aims merge member] at still
          cases still
    · have untouched : ¬ GroupMerge.Touches files.working directory disposable
          (groupMerges fanIn pass inputs) place := by
        rintro (aim | ⟨-, member⟩)
        · exact made aim
        · rw [sources_groupMerges] at member
          exact site.fresh place member isPlace
      rw [← first.same place untouched]
      by_cases later : IsMergePlace files.working directory (pass + 1) place
      · refine restored place later fun content => ?_
        rw [first.same place untouched]
        exact absent content
      · refine second.same place ?_
        rintro (rfl | ⟨-, member⟩ | isLater)
        · exact site.freshOutput isPlace
        · obtain ⟨merge, inside, rfl⟩ := List.mem_map.mp member
          exact made ⟨merge, inside, rfl⟩
        · exact later isLater
  · rw [← removed disposed place member]
    refine second.same place ?_
    rintro (rfl | ⟨-, inside⟩ | isLater)
    · exact site.aside member
    · obtain ⟨merge, here, rfl⟩ := List.mem_map.mp inside
      exact site.fresh _ member (isMergePlace_aim here)
    · exact site.fresh place member isLater.of_succ

/-- The merge of files in passes, from one pass on. -/
theorem settles_passes {output : Output} {content : Bytes}
    (there : files.get? (goal files.working output.path) = some (.file content))
    (supplied : ∀ input ∈ inputs, files.Supplies input)
    (site : Site files.working directory pass disposable inputs output.path) :
    ((passes directory fanIn pass disposable (inputs.map MergeInput.path)).run output).Settles time
      files (∀ input ∈ inputs, input.IsSound)
      (Leaves files directory pass disposable inputs output content) := by
  induction length : inputs.length using Nat.strongRecOn
    generalizing files pass disposable inputs with
  | _ count ih =>
    by_cases many : fanIn + 2 < inputs.length
    · have fewer := length_groupsOf_lt fanIn inputs many
      have results : ((groupMerges fanIn pass inputs).map (GroupMerge.result directory)).length <
          count := by
        rw [List.length_map, length_groupMerges]
        omega
      rw [passes_of_many many, run_append]
      refine (settles_first supplied site).bindAchieves ?_
      rintro sound _ passed ⟨supplies, removed, first⟩
      have stillThere : passed.get? (goal passed.working output.path) = some (.file content) := by
        rw [first.working, first.same _ site.output_untouched]
        exact there
      have siteNext : Site passed.working directory (pass + 1) true
          ((groupMerges fanIn pass inputs).map (GroupMerge.result directory)) output.path :=
        first.working ▸ site.next
      refine ((ih _ results stillThere supplies siteNext rfl).achieves
        (isSound_results sound)).mono ?_
      intro merged after leaves
      exact leaves.of_pass site sound removed first
    · have fewFiles : ¬ fanIn + 2 < (inputs.map MergeInput.path).length := by
        rwa [List.length_map]
      rw [passes, dif_neg fewFiles]
      exact settles_last there supplied site

/-! ## Any files -/

/-- Merging files in passes is merging them at once.  The files hold any bytes and are opened at any
paths, the output is none of them, and no file in the work directory is named like an intermediate
one.  As long as the operations on files succeed, both merges succeed exactly if every file holds
entries in order up to its end.  They then leave the same tree: the output is extended by the stable
sort of the entries of all files, one file after the other, and everything else is as it was.  A
fan-in below two counts as two. -/
theorem merges_as_at_once {output : Output} {content : Bytes}
    (opens : ∀ input ∈ inputs, files.openAt input.path = .ok (.file input.content))
    (opensOutput : files.openAt output.path = .ok (.file content))
    (aside : ∀ input ∈ inputs, files.locate input.path ≠ files.locate output.path)
    (absent : ∀ pass group,
      files.HasNoFile (home files.working directory ++ [Store.mergeName pass group]))
    (steady : Program.Steady time
      ((make directory fanIn (inputs.map MergeInput.path)).run output).run files) :
    ((∃ merged after, ((make directory fanIn (inputs.map MergeInput.path)).run output).runOn time
        files = (.ok merged, after)) ↔ ∀ input ∈ inputs, input.IsSound) ∧
    ((∃ merged after, (mergeInto output (inputs.map MergeInput.path)).runOn time files =
        (.ok merged, after)) ↔ ∀ input ∈ inputs, input.IsSound) ∧
    (∀ merged after, ((make directory fanIn (inputs.map MergeInput.path)).run output).runOn time
        files = (.ok merged, after) →
      merged.entries = output.entries + (MergeInput.sortAll inputs).length ∧
      after.openAt output.path =
        .ok (.file (content ++ StoredEntry.encodeAll (MergeInput.sortAll inputs))) ∧
      after.working = files.working ∧
      (∀ place, files.locate output.path ≠ .ok place → after.get? place = files.get? place) ∧
      ∃ atOnce, (mergeInto output (inputs.map MergeInput.path)).runOn time files =
        (.ok merged, atOnce) ∧ ∀ place, atOnce.get? place = after.get? place) ∧
    (fanIn < 2 → make directory fanIn (inputs.map MergeInput.path) =
      make directory 2 (inputs.map MergeInput.path)) := by
  obtain ⟨locatedOutput, there⟩ := Files.locate_of_openAt opensOutput
  have supplied : ∀ input ∈ inputs, files.Supplies input := fun input member =>
    Files.supplies_of_openAt (opens input member)
  have fresh : ∀ {place : Location} {bytes : Bytes}, files.get? place = some (.file bytes) →
      ¬ IsMergePlace files.working directory 1 place := by
    rintro _ bytes stands ⟨pass, group, -, rfl⟩
    exact absent pass group bytes stands
  have site : Site files.working directory 1 false inputs output.path := by
    refine ⟨fun place member => ?_, fresh there, fun member => ?_, nofun⟩
    · obtain ⟨input, inside, rfl⟩ := List.mem_map.mp member
      exact fresh (supplied input inside)
    · obtain ⟨input, inside, same⟩ := List.mem_map.mp member
      refine aside input inside ?_
      rw [(Files.locate_of_openAt (opens input inside)).1, locatedOutput]
      exact congrArg Except.ok same
  have inPasses : ((make directory fanIn (inputs.map MergeInput.path)).run output).Settles time files
      (∀ input ∈ inputs, input.IsSound) (Leaves files directory 1 false inputs output content) :=
    settles_passes there supplied site
  have atOnce := @settles_mergeInto time files inputs output content there supplied
  refine ⟨⟨?_, fun sound => inPasses.of_steady steady sound⟩, ⟨?_, fun sound => ?_⟩, ?_, ?_⟩
  · rintro ⟨merged, after, done⟩
    exact (inPasses.of_ok done).1
  · rintro ⟨merged, after, done⟩
    exact (atOnce.of_ok done).1
  · exact ⟨_, exists_mergeInto opens opensOutput sound⟩
  · intro merged after done
    obtain ⟨sound, leaves⟩ := inPasses.of_ok done
    have restored : ∀ place, place ≠ goal files.working output.path →
        after.get? place = files.get? place := by
      intro place other
      by_cases isPlace : IsMergePlace files.working directory 1 place
      · refine leaves.restored place isPlace ?_
        obtain ⟨pass, group, -, rfl⟩ := isPlace
        exact absent pass group
      · refine leaves.overwrites.same place ?_
        rintro (same | ⟨disposed, -⟩ | here)
        · exact other same
        · cases disposed
        · exact isPlace here
    obtain ⟨last, once⟩ : ∃ last, (mergeInto output (inputs.map MergeInput.path)).runOn time files =
        (.ok (output.after (MergeInput.sortAll inputs)), last) :=
      exists_mergeInto opens opensOutput sound
    obtain ⟨-, -, written, overwrites⟩ := atOnce.of_ok once
    rw [leaves.result]
    refine ⟨rfl, Files.openAt_of_locate (leaves.overwrites.locate locatedOutput) leaves.written,
      leaves.overwrites.working, fun place other => restored place fun same => ?_, last, once,
      fun place => ?_⟩
    · rw [same] at other
      exact other locatedOutput
    · by_cases same : place = goal files.working output.path
      · rw [same, written, leaves.written]
      · rw [overwrites.same place same, restored place same]
  · intro few
    have same : fanIn - 2 = 2 - 2 := by omega
    rw [make, make, same]

/-- Three segments, of which the last is empty. -/
def fewInputs : List MergeInput :=
  [⟨"w/s1", StoredEntry.encodeAll [⟨"/a", [1]⟩, ⟨"/b", [1]⟩]⟩,
    ⟨"w/s2", StoredEntry.encodeAll [⟨"/a", [2]⟩]⟩, ⟨"w/s3", []⟩]

/-- A work directory with the segments and an empty output. -/
def fewFiles : Files :=
  ⟨(["w"], .directory) :: (["w", "out"], .file []) ::
    [(["w", "s1"], .file (StoredEntry.encodeAll [⟨"/a", [1]⟩, ⟨"/b", [1]⟩])),
      (["w", "s2"], .file (StoredEntry.encodeAll [⟨"/a", [2]⟩])), (["w", "s3"], .file [])], []⟩

theorem few_steady : Program.Steady ⟨0, 0⟩
    ((make "w" 0 (fewInputs.map MergeInput.path)).run { path := "w/out" }).run fewFiles := by
  decide +kernel

theorem few_sound : ∀ input ∈ fewInputs, input.IsSound := by
  decide +kernel

theorem few_sorted : MergeInput.sortAll fewInputs =
    [⟨"/a", [1]⟩, ⟨"/a", [2]⟩, ⟨"/b", [1]⟩] := by
  have entries : (fewInputs.flatMap fun input => input.reading.entries) =
      [⟨"/a", [1]⟩, ⟨"/b", [1]⟩, ⟨"/a", [2]⟩] := by decide +kernel
  rw [MergeInput.sortAll, entries]
  simp [stableSort, List.mergeSort, List.MergeSort.Internal.splitInTwo]

theorem few_absent (pass group : Nat) : fewFiles.HasNoFile
    (Files.home fewFiles.working "w" ++ [Store.mergeName pass group]) := by
  have differs : ∀ name : String, name.toList.head? ≠ some 'm' →
      Store.mergeName pass group ≠ name := by
    rintro _ other rfl
    exact other (by simp [Store.toList_mergeName])
  have home : Files.home fewFiles.working "w" = ["w"] := by decide +kernel
  intro content
  rw [home]
  simp [Files.get?, fewFiles, List.lookup_cons, List.lookup_nil, beq_eq_false_iff_ne.mpr (differs "out" (by decide)),
    beq_eq_false_iff_ne.mpr (differs "s1" (by decide)),
    beq_eq_false_iff_ne.mpr (differs "s2" (by decide)),
    beq_eq_false_iff_ne.mpr (differs "s3" (by decide))]

/-- Three files at a fan-in of zero are merged by twos, and no intermediate file is left. -/
theorem few_merge_as_at_once : ∃ merged after,
    ((make "w" 0 (fewInputs.map MergeInput.path)).run { path := "w/out" }).runOn ⟨0, 0⟩ fewFiles =
      (.ok merged, after) ∧ merged.entries = 3 ∧
    after.openAt "w/out" =
      .ok (.file (StoredEntry.encodeAll [⟨"/a", [1]⟩, ⟨"/a", [2]⟩, ⟨"/b", [1]⟩])) ∧
    after.get? ["w", "merge-001-000000.dat"] = none := by
  have opensOutput : fewFiles.openAt ({ path := "w/out" } : Output).path = .ok (.file []) := by
    decide +kernel
  obtain ⟨succeeds, -, leaves, -⟩ := merges_as_at_once (by decide +kernel) opensOutput
    (by decide +kernel) few_absent few_steady
  obtain ⟨merged, after, done⟩ := succeeds.mpr few_sound
  obtain ⟨count, bytes, -, restored, -⟩ := leaves merged after done
  rw [few_sorted] at count bytes
  refine ⟨merged, after, done, count, bytes, ?_⟩
  rw [restored _ (by decide +kernel)]
  decide +kernel

/-! ## Runs in a directory -/

/-- The place is that of a name in a directory. -/
def Inside (working : Location) (directory : String) (place : Location) : Prop :=
  ∃ name, place = home working directory ++ [name]

/-- Carrying out a plan for files with runs writes the stable sort of the runs. -/
theorem achieves_run {names : List String} {contents : List (List StoredEntry)} {output : Output}
    {content : Bytes} (there : files.get? (goal files.working output.path) = some (.file content))
    (outside : ¬ Inside files.working directory (goal files.working output.path))
    (isName : ∀ name ∈ names, Path.IsName name)
    (other : ∀ name ∈ names, ∀ pass group, name ≠ Store.mergeName pass group)
    (holds : List.Forall₂ (files.Holds directory) names contents)
    (sound : ∀ run ∈ contents, IsRun run) :
    ((make directory fanIn (names.map (Path.join directory))).run output).Achieves time files
      fun merged after =>
        merged = output.after (stableSort StoredEntry.path contents.flatten) ∧
        after.get? (goal files.working output.path) = some (.file (content ++
          StoredEntry.encodeAll (stableSort StoredEntry.path contents.flatten))) ∧
        Overwrites (fun place => place = goal files.working output.path ∨
          Inside files.working directory place) files after := by
  obtain ⟨inputs, paths, supplied, sorted⟩ := Files.Holds.inputs isName holds sound
  have inDirectory : ∀ place ∈ MergeInput.places files.working inputs, ∃ name ∈ names,
      place = home files.working directory ++ [name] := by
    intro place member
    obtain ⟨input, inside, rfl⟩ := List.mem_map.mp member
    obtain ⟨-, -, name, here, path⟩ := supplied input inside
    exact ⟨name, here, by rw [path, Files.goal_join _ _ (isName name here)]⟩
  have site : Site files.working directory 1 false inputs output.path := by
    refine ⟨fun place member => ?_, ?_, fun member => ?_, nofun⟩
    · rintro ⟨pass, group, -, same⟩
      obtain ⟨name, here, rfl⟩ := inDirectory place member
      exact other name here pass group (by simpa using same)
    · rintro ⟨pass, group, -, same⟩
      exact outside ⟨_, same⟩
    · obtain ⟨name, -, same⟩ := inDirectory _ member
      exact outside ⟨name, same⟩
  rw [← paths, ← sorted]
  refine ((settles_passes there (fun input member => (supplied input member).1) site).achieves
    fun input member => (supplied input member).2.1).mono ?_
  intro merged after leaves
  refine ⟨leaves.result, leaves.written, leaves.overwrites.mono fun place touches => ?_⟩
  rcases touches with same | ⟨disposed, -⟩ | ⟨pass, group, -, same⟩
  · exact .inl same
  · cases disposed
  · exact .inr ⟨_, same⟩

end MergePlan
end TreeExport

import TreeExport.Proofs.Files.Breaks
import TreeExport.Proofs.Store.Passes

/-!
# What merging touches

Carrying out a plan comes to no changes but in the directory of its intermediate files and to the last
output (`MergePlan.only_run`).  Whatever the files hold that are merged, the output counts and digests
just what it has been extended by (`MergePlan.run_ok`).
-/

namespace TreeExport

open Files (home goal Overwrites)

/-! ## The changes of a merge -/

variable {allowed : Files.Change → Prop}

theorem Run.only_openFiles (paths : List String) : (openFiles paths).Only allowed := by
  induction paths with
  | nil => exact FileTask.only_pure _
  | cons path rest ih =>
    exact (FileTask.only_access path).bind fun _ => ih.bind fun _ => FileTask.only_pure _

/-- What follows the writing of an entry goes on with the path that was written to. -/
theorem Output.only_write_bind {β : Type} {output : Output} {next : Output → FileTask β}
    (extended : ∀ bytes, allowed (.extend output.path bytes))
    (later : ∀ count digest, (next ⟨output.path, count, digest⟩).Only allowed)
    (entry : StoredEntry) : (output.write entry >>= next).Only allowed := by
  unfold Output.write
  cases entry.encode with
  | error reason => exact trivial
  | ok bytes =>
    rw [bind_assoc]
    refine (FileTask.only_change (extended bytes)).bind fun _ => ?_
    rw [pure_bind]
    exact later _ _

theorem Output.only_writeAll {output : Output}
    (extended : ∀ bytes, allowed (.extend output.path bytes)) (entries : List StoredEntry) :
    (output.writeAll entries).Only allowed := by
  induction entries generalizing output with
  | nil => exact FileTask.only_pure _
  | cons entry rest ih =>
    exact Output.only_write_bind extended
      (fun count digest => @ih ⟨output.path, count, digest⟩ extended) entry

namespace MergePlan

theorem only_mergeInto {output : Output} (extended : ∀ bytes, allowed (.extend output.path bytes))
    (inputs : List String) : (mergeInto output inputs).Only allowed := by
  refine (Run.only_openFiles inputs).bind fun runs => ?_
  refine (Output.only_writeAll extended _).bind fun written => ?_
  split
  · exact FileTask.only_throw _
  · exact FileTask.only_pure _

theorem only_removeAll {paths : List String}
    (removed : ∀ path ∈ paths, allowed (.removeFile path)) : (removeAll paths).Only allowed := by
  induction paths with
  | nil => exact FileTask.only_pure _
  | cons path rest ih =>
    exact (FileTask.only_change (removed path List.mem_cons_self)).bind fun _ =>
      ih fun other member => removed other (List.mem_cons_of_mem _ member)

/-- Steps create their outputs and extend them, and remove the intermediate files among their
inputs. -/
theorem only_runSteps {steps : List MergeStep}
    (created : ∀ step ∈ steps, allowed (.create step.output))
    (extended : ∀ step ∈ steps, ∀ bytes, allowed (.extend step.output bytes))
    (removed : ∀ step ∈ steps, step.disposable = true → ∀ path ∈ step.inputs,
      allowed (.removeFile path)) : (runSteps steps).Only allowed := by
  induction steps with
  | nil => exact FileTask.only_pure _
  | cons step rest ih =>
    have later : (runSteps rest).Only allowed :=
      ih (fun other member => created other (List.mem_cons_of_mem _ member))
        (fun other member => extended other (List.mem_cons_of_mem _ member))
        fun other member => removed other (List.mem_cons_of_mem _ member)
    have merged : (mergeInto ⟨step.output, 0, {}⟩ step.inputs).Only allowed :=
      only_mergeInto (extended step List.mem_cons_self) step.inputs
    refine (FileTask.only_change (created step List.mem_cons_self)).bind fun _ =>
      (merged.bind fun _ => FileTask.only_pure _).bind fun _ => ?_
    split
    · next disposable =>
      exact (only_removeAll (removed step List.mem_cons_self disposable)).bind fun _ => later
    · exact later

/-- The path is that of a name in a directory. -/
def IsIn (directory path : String) : Prop :=
  ∃ name, Path.IsName name ∧ path = Path.join directory name

/-- The intermediate files of a plan are in a directory. -/
structure StaysIn (directory : String) (plan : MergePlan) : Prop where
  outputs : ∀ step ∈ plan.steps, IsIn directory step.output
  inputs : ∀ step ∈ plan.steps, step.disposable = true → ∀ path ∈ step.inputs, IsIn directory path
  last : plan.disposable = true → ∀ path ∈ plan.last, IsIn directory path

theorem staysIn_passes {directory : String} {fanIn pass : Nat} {disposable : Bool}
    {files : List String} (spare : disposable = true → ∀ path ∈ files, IsIn directory path) :
    (passes directory fanIn pass disposable files).StaysIn directory := by
  fun_induction passes directory fanIn pass disposable files with
  | case1 pass disposable files many groups outputs more ih =>
    have here : ∀ path ∈ outputs, IsIn directory path := by
      intro path member
      obtain ⟨group, -, rfl⟩ := List.mem_map.mp member
      exact ⟨Store.mergeName pass group, Store.isName_mergeName pass group, rfl⟩
    have later : more.StaysIn directory := ih fun _ => here
    refine ⟨fun step member => ?_, fun step member disposes path inside => ?_, later.last⟩
    · rcases List.mem_append.mp member with first | rest
      · obtain ⟨⟨inputs, output⟩, paired, rfl⟩ := List.mem_map.mp first
        exact here output (List.of_mem_zip paired).2
      · exact later.outputs step rest
    · rcases List.mem_append.mp member with first | rest
      · obtain ⟨⟨inputs, output⟩, paired, rfl⟩ := List.mem_map.mp first
        refine spare disposes path ?_
        rw [← flatten_groupsOf (fanIn + 1) files]
        exact List.mem_flatten.mpr ⟨inputs, (List.of_mem_zip paired).1, inside⟩
      · exact later.inputs step rest disposes path inside
  | case2 =>
    exact ⟨fun _ none => absurd none List.not_mem_nil, fun _ none => absurd none List.not_mem_nil,
      spare⟩

theorem staysIn_make (directory : String) (fanIn : Nat) (paths : List String) :
    (make directory fanIn paths).StaysIn directory :=
  staysIn_passes fun disposable => absurd disposable (by decide)

/-- Nothing is done to merge nothing. -/
theorem run_make_nil (directory : String) (fanIn : Nat) (output : Output) :
    (make directory fanIn []).run output = pure output := by
  have few : ¬ fanIn - 2 + 2 < ([] : List String).length := Nat.not_lt_zero _
  have nothing : Merging.ofRuns [] = ⟨[], none⟩ := by
    unfold Merging.ofRuns Merging.openAll Merging.ofCursors
    rfl
  rw [make, passes, dif_neg few]
  simp only [run, runSteps, mergeInto, Run.openFiles, pure_bind, nothing, Output.writeAll]
  rfl

/-- A plan without steps merges the files themselves. -/
theorem last_passes {directory : String} {fanIn pass : Nat} {disposable : Bool} {files : List String}
    (none : (passes directory fanIn pass disposable files).steps = []) :
    (passes directory fanIn pass disposable files).last = files := by
  unfold passes at none ⊢
  split at none
  · next many =>
    have groups : groupsOf (fanIn + 1) files = [] := by
      have zipped := List.map_eq_nil_iff.mp (List.append_eq_nil_iff.mp none).1
      rcases List.zip_eq_nil_iff.mp zipped with groups | outputs
      · exact groups
      · exact List.length_eq_zero_iff.mp (List.range_eq_nil.mp (List.map_eq_nil_iff.mp outputs))
    have all := flatten_groupsOf (fanIn + 1) files
    rw [groups] at all
    rw [← all] at many
    exact absurd many (Nat.not_lt_zero _)
  · next few => rw [dif_neg few]

/-- Carrying out a plan changes nothing but files in the directory of its intermediate files, and the
last output, which is extended. -/
theorem only_run {plan : MergePlan} {output : Output} {directory : String}
    (stays : plan.StaysIn directory) (created : ∀ path, IsIn directory path → allowed (.create path))
    (extended : ∀ path, IsIn directory path → ∀ bytes, allowed (.extend path bytes))
    (removed : ∀ path, IsIn directory path → allowed (.removeFile path))
    (last : ∀ bytes, allowed (.extend output.path bytes)) : (plan.run output).Only allowed := by
  have steps : (runSteps plan.steps).Only allowed :=
    only_runSteps (fun step member => created _ (stays.outputs step member))
      (fun step member => extended _ (stays.outputs step member))
      fun step member disposes path inside =>
        removed path (stays.inputs step member disposes path inside)
  refine steps.bind fun _ => (only_mergeInto last plan.last).bind fun merged => ?_
  split
  · next disposable =>
    exact (only_removeAll fun path member => removed path (stays.last disposable path member)).bind
      fun _ => FileTask.only_pure _
  · exact FileTask.only_pure _

/-! ## What has been merged -/

variable {time : Moment} {files after : Files} {content : Bytes}

/-- The change is one of a file of some name in a directory. -/
def IsChangeIn (directory : String) : Files.Change → Prop
  | .create path => IsIn directory path
  | .extend path _ => IsIn directory path
  | .removeFile path => IsIn directory path
  | _ => False

theorem overwrites_of_isChangeIn {directory : String} {c : Files.Change}
    (allowed : IsChangeIn directory c) (changes : files.change c = .ok after) :
    Overwrites (Inside files.working directory) files after := by
  cases c with
  | create path =>
    obtain ⟨name, isName, rfl⟩ := allowed
    have created := (Files.create_ok (Files.leads_join _ _ isName) changes).2
    exact created.mono fun place same => ⟨name, same⟩
  | extend path bytes =>
    obtain ⟨name, isName, rfl⟩ := allowed
    obtain ⟨_, _, _, extended⟩ := Files.extend_ok (Files.leads_join _ _ isName) changes
    exact extended.mono fun place same => ⟨name, same⟩
  | removeFile path =>
    obtain ⟨name, isName, rfl⟩ := allowed
    have removed := (Files.removeFile_ok (Files.leads_join _ _ isName) changes).2
    exact removed.mono fun place same => ⟨name, same⟩
  | _ => exact absurd allowed id

/-- A task that changes only files in a directory leaves all else as it was. -/
theorem overwrites_of_only {α : Type} {directory : String} {task : FileTask α}
    (only : task.Only (IsChangeIn directory)) {outcome : Except Error α}
    (ran : task.runOn time files = (outcome, after)) :
    Overwrites (Inside files.working directory) files after := by
  have throughout : task.Throughout time files
      (Overwrites (Inside files.working directory) files) := by
    refine FileTask.Only.throughout only (fun {tree changed part c} allowed partly changes before => ?_)
      (.refl _ _)
    have partAllowed : IsChangeIn directory part := by cases partly <;> exact allowed
    have later := overwrites_of_isChangeIn partAllowed changes
    rw [before.working] at later
    exact before.trans later
  exact throughout.last ran

theorem isShort_of_writeAll {output written : Output} {entries : List StoredEntry}
    (done : (output.writeAll entries).runOn time files = (.ok written, after)) :
    ∀ entry ∈ entries, entry.IsShort := by
  induction entries generalizing output files with
  | nil => exact fun _ none => absurd none List.not_mem_nil
  | cons entry rest ih =>
    obtain ⟨_, _, first, later⟩ := FileTask.runOn_bind_ok done
    refine List.forall_mem_cons.mpr ⟨?_, ih later⟩
    cases encoded : entry.encode with
    | ok bytes => exact StoredEntry.isShort_of_encode encoded
    | error reason =>
      unfold Output.write at first
      rw [encoded] at first
      cases first

/-- What a merge that is done has extended its output by. -/
theorem mergeInto_ok {output merged : Output} {paths : List String}
    (there : files.get? (goal files.working output.path) = some (.file content))
    (done : (mergeInto output paths).runOn time files = (.ok merged, after)) :
    ∃ entries, (∀ entry ∈ entries, entry.IsShort) ∧ merged = output.after entries ∧
      after.get? (goal files.working output.path) =
        some (.file (content ++ StoredEntry.encodeAll entries)) ∧
      Overwrites (· = goal files.working output.path) files after := by
  obtain ⟨runs, _, opened, rest⟩ := FileTask.runOn_bind_ok done
  have unchanged : (Run.openFiles paths).Throughout time files (· = files) :=
    FileTask.Only.unchanged (Run.only_openFiles paths)
  cases unchanged.last opened
  obtain ⟨written, last, wrote, rest⟩ := FileTask.runOn_bind_ok rest
  have short := isShort_of_writeAll wrote
  obtain ⟨rfl, now, overwrites⟩ := (Output.achieves_writeAll there short).of_ok wrote
  split at rest
  · cases rest
  · cases rest
    exact ⟨_, short, rfl, now, overwrites⟩

/-- Whatever the files hold: a plan that has been carried out has extended its output by entries, and
has counted and digested just these. -/
theorem run_ok {plan : MergePlan} {output merged : Output} {directory : String}
    (stays : plan.StaysIn directory)
    (aside : ¬ Inside files.working directory (goal files.working output.path))
    (there : files.get? (goal files.working output.path) = some (.file content))
    (done : (plan.run output).runOn time files = (.ok merged, after)) :
    ∃ entries, (∀ entry ∈ entries, entry.IsShort) ∧ merged = output.after entries ∧
      after.get? (goal files.working output.path) =
        some (.file (content ++ StoredEntry.encodeAll entries)) := by
  obtain ⟨_, passed, steps, rest⟩ := FileTask.runOn_bind_ok done
  have onlySteps : (runSteps plan.steps).Only (IsChangeIn directory) :=
    only_runSteps stays.outputs (fun step member _ => stays.outputs step member) stays.inputs
  have first := overwrites_of_only onlySteps steps
  have still : passed.get? (goal passed.working output.path) = some (.file content) := by
    rw [first.working, first.same _ aside]
    exact there
  obtain ⟨written, last, wrote, rest⟩ := FileTask.runOn_bind_ok rest
  obtain ⟨entries, short, rfl, now, extended⟩ := mergeInto_ok still wrote
  rw [first.working] at now
  have working : last.working = files.working := extended.working.trans first.working
  split at rest
  · next disposable =>
    obtain ⟨_, cleared, removed, rest⟩ := FileTask.runOn_bind_ok rest
    cases rest
    have onlyRemoves : (removeAll plan.last).Only (IsChangeIn directory) :=
      only_removeAll (stays.last disposable)
    have second := overwrites_of_only onlyRemoves removed
    rw [working] at second
    exact ⟨entries, short, rfl, (second.same _ aside).trans now⟩
  · cases rest
    exact ⟨entries, short, rfl, now⟩

end MergePlan

end TreeExport

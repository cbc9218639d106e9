import TreeExport.Proofs.Store.Closing
import TreeExport.Proofs.Store.Manifests

/-!
# What closing publishes

Other writers may have written over the segments of a writer, or removed them.  Whatever they hold: a
writer that comes to the end of closing has published a store whose manifest describes just what its
file of entries holds (`Store.Writer.close_ok`).
-/

namespace TreeExport.Store

variable {time : Moment} {files after : Files} {directory : String} {writer : Writer}

namespace Writer

/-! ## Writers of a directory -/

/-- A writer of a directory: its segments are in the directory of segments, and each holds entries. -/
structure IsOf (directory : String) (writer : Writer) : Prop where
  here : writer.directory = directory
  paths : ∀ segment ∈ writer.segments, MergePlan.IsIn (segmentsPath directory) segment.path
  counted : writer.segments.length ≤ writer.appended

theorem isOf_new (directory : String) : IsOf directory { directory := directory } :=
  ⟨rfl, fun _ none => absurd none List.not_mem_nil, Nat.le_refl 0⟩

theorem writeEntries_counts {segment written : Segment} {previous : Option String}
    {entries : List StoredEntry}
    (done : (writeEntries segment previous entries).runOn time files = (.ok written, after)) :
    written.path = segment.path ∧ written.entries = segment.entries + entries.length := by
  induction entries generalizing segment previous files with
  | nil =>
    cases done
    exact ⟨rfl, rfl⟩
  | cons entry rest ih =>
    obtain ⟨above, short⟩ := isShort_of_writeEntries done
    rw [writeEntries_cons short above] at done
    obtain ⟨_, _, -, later⟩ := FileTask.runOn_bind_ok done
    obtain ⟨path, count⟩ := ih later
    refine ⟨path, ?_⟩
    rw [count, List.length_cons, Nat.add_assoc, Nat.add_comm 1]

theorem IsOf.append (isOf : writer.IsOf directory) {run : List StoredEntry} {next : Writer}
    {segment : Option Segment}
    (done : (writer.append run).runOn time files = (.ok (segment, next), after)) :
    next.IsOf directory := by
  obtain ⟨rfl, paths, counted⟩ := isOf
  unfold append at done
  split at done
  · cases done
    exact ⟨rfl, paths, counted⟩
  · next notEmpty =>
    obtain ⟨_, _, -, rest⟩ := FileTask.runOn_bind_ok done
    obtain ⟨last, _, wrote, rest⟩ := FileTask.runOn_bind_ok rest
    cases rest
    obtain ⟨path, count⟩ := writeEntries_counts wrote
    have some : 0 < run.length := List.length_pos_iff.mpr (by simpa using notEmpty)
    refine ⟨rfl, fun other member => ?_, ?_⟩
    · rcases List.mem_append.mp member with before | new
      · exact paths other before
      · rw [List.mem_singleton.mp new, path]
        exact ⟨_, isName_segmentName _, rfl⟩
    · simp only [List.length_append, List.length_singleton, count]
      omega

/-! ## Coming to the end of closing -/

/-- Who comes to the end has found the directory of segments. -/
theorem isReady_of_finish {output : Output} {manifest : Manifest}
    (done : (writer.finish output).runOn time files = (.ok manifest, after)) :
    IsReady files writer.directory := by
  obtain ⟨_, renamed, moved, rest⟩ := FileTask.runOn_bind_ok done
  obtain ⟨_, _, _, overwrites⟩ := Files.rename_ok
    (Files.leads_join files.working writer.directory isName_dataDraft)
    (Files.leads_join files.working writer.directory isName_data) (spot_ne (by decide))
    (FileTask.achieves_change.of_ok moved)
  obtain ⟨_, removed, cleared, -⟩ := FileTask.runOn_bind_ok rest
  obtain ⟨kind, _, looked, rest⟩ := FileTask.runOn_bind_ok cleared
  cases looked
  have ready : IsReady renamed writer.directory := by
    refine isReady_of_kindAt ?_
    cases found : Program.kindAt renamed (segmentsPath writer.directory) with
    | none =>
      rw [found] at rest
      cases rest
    | some kind =>
      rw [found] at rest
      cases kind with
      | file => cases rest
      | directory => rfl
  refine ⟨?_, ready.nameable⟩
  have there := ready.there
  rw [overwrites.working, overwrites.same] at there
  · exact there
  · rintro (same | same)
    · exact spot_ne (by decide) same
    · exact spot_ne (by decide) same

/-- Closing that succeeds publishes entries, whatever there was to be merged. -/
theorem close_ok (isOf : writer.IsOf directory) (proper : files.IsProper) {manifest : Manifest}
    (done : writer.close.runOn time files = (.ok manifest, after)) :
    ∃ entries, (∀ entry ∈ entries, entry.IsShort) ∧ manifest.Describes entries ∧
      manifest.created = time ∧ Publishes after directory manifest entries ∧
      after.get? (spot after.working directory "segments") = none := by
  obtain ⟨rfl, -, counted⟩ := isOf
  rw [close_eq_finish] at done
  obtain ⟨_, created, opened, rest⟩ := FileTask.runOn_bind_ok done
  have fresh := (Files.create_ok
    (Files.leads_join files.working writer.directory isName_dataDraft)
    (FileTask.achieves_change.of_ok opened)).1
  have working := Files.working_change (FileTask.achieves_change.of_ok opened)
  have properCreated := proper.change (FileTask.achieves_change.of_ok opened)
  obtain ⟨output, merged, ran, rest⟩ := FileTask.runOn_bind_ok rest
  have goal : Files.goal created.working (dataDraftPath writer.directory) =
      spot created.working writer.directory "entries.dat.tmp" :=
    Files.goal_join _ _ isName_dataDraft
  rw [← working] at fresh
  obtain ⟨entries, short, rfl, filled⟩ := MergePlan.run_ok (MergePlan.staysIn_make _ _ _)
    (by rw [goal]; exact not_inside_segments _ _ _) (by rw [goal]; exact fresh) ran
  have sameWorking := FileTask.working_of_runOn ran
  have properMerged := FileTask.isProper_of_runOn ran properCreated
  rw [goal, List.nil_append, ← sameWorking] at filled
  split at rest
  · cases rest
  · next counts =>
    have ready := isReady_of_finish rest
    obtain ⟨rfl, publishes, gone⟩ := (achieves_finish properMerged ready filled).of_ok rest
    have appended : entries.length = writer.appended := by
      have same := not_not.mp counts
      rwa [Output.after, Nat.zero_add] at same
    refine ⟨entries, short, ⟨rfl, ?_, ?_, rfl⟩, rfl, publishes, gone⟩
    · exact Nat.zero_add _
    · rw [appended]
      exact counted

end Writer

end TreeExport.Store

import TreeExport.Proofs.Store.Drafts
import TreeExport.Proofs.Store.Plans

/-!
# Where a writer stops

A writer that stops while it appends leaves a draft, and keeps the runs that it had appended before
(`Store.Writer.Keeps.throughout_append`).  One that stops while it closes leaves no store unless it has
come to its last change, which gives the manifest its name; then it has come to its end
(`Store.Writer.breaksOff_close`).
-/

namespace TreeExport

open Files (home)

namespace Store.Writer

variable {time : Moment} {writer : Writer} {files left : Files} {runs : List (List StoredEntry)}

/-! ## Stopping while appending -/

/-- An entry is written only if it is not below the one before it and its lengths can be written. -/
theorem isShort_of_writeEntries {segment written : Segment} {previous : Option String}
    {entry : StoredEntry} {rest : List StoredEntry}
    (done : (writeEntries segment previous (entry :: rest)).runOn time files =
      (.ok written, left)) :
    (∀ path ∈ previous, path ≤ entry.path) ∧ entry.IsShort := by
  refine ⟨?_, ?_⟩
  · rintro path rfl
    refine String.not_lt.mp fun below => ?_
    rw [writeEntries_below below] at done
    cases done
  · cases encoded : entry.encode with
    | ok bytes => exact StoredEntry.isShort_of_encode encoded
    | error reason =>
      unfold writeEntries at done
      rw [encoded] at done
      cases previous with
      | none => cases done
      | some path =>
        dsimp only at done
        split at done <;> cases done

/-- Only a run is written whole: sorted, and of entries whose lengths can be written. -/
theorem isRun_of_writeEntries {segment written : Segment} {previous : Option String}
    {entries : List StoredEntry}
    (done : (writeEntries segment previous entries).runOn time files = (.ok written, left)) :
    IsRun entries ∧ ∀ path ∈ previous, ∀ entry ∈ entries, path ≤ entry.path := by
  induction entries generalizing segment previous files with
  | nil =>
    exact ⟨⟨.nil, fun _ none => absurd none List.not_mem_nil⟩,
      fun _ _ _ none => absurd none List.not_mem_nil⟩
  | cons entry rest ih =>
    obtain ⟨above, short⟩ := isShort_of_writeEntries done
    rw [writeEntries_cons short above] at done
    obtain ⟨_, middle, -, later⟩ := FileTask.runOn_bind_ok done
    obtain ⟨run, below⟩ := ih later
    have least : ∀ other ∈ rest, entry.path ≤ other.path := below entry.path rfl
    refine ⟨⟨List.pairwise_cons.mpr ⟨least, run.sorted⟩, List.forall_mem_cons.mpr ⟨short, run.short⟩⟩,
      fun path same => List.forall_mem_cons.mpr ⟨above path same, fun other member => ?_⟩⟩
    exact String.le_trans (above path same) (least other member)

theorem isRun_of_append {entries : List StoredEntry} {answer : Option Segment × Writer}
    (done : (writer.append entries).runOn time files = (.ok answer, left)) : IsRun entries := by
  unfold append at done
  split at done
  · next empty =>
    rw [List.isEmpty_iff.mp empty]
    exact ⟨.nil, fun _ none => absurd none List.not_mem_nil⟩
  · obtain ⟨_, created, -, rest⟩ := FileTask.runOn_bind_ok done
    obtain ⟨segment, _, wrote, -⟩ := FileTask.runOn_bind_ok rest
    exact (isRun_of_writeEntries wrote).1

/-- A writer that stops while it appends keeps what it had appended before. -/
theorem Keeps.throughout_append (keeps : writer.Keeps files runs)
    (ready : IsReady files writer.directory) (entries : List StoredEntry) :
    (writer.append entries).Throughout time files fun left =>
      writer.Keeps left runs ∧ IsReady left writer.directory := by
  have path : segmentPath writer.directory (writer.segments.length + 1) =
      Path.join (segmentsPath writer.directory) (segmentName (runs.length + 1)) := by
    rw [keeps.length]
    rfl
  have only := only_append_segment writer entries
  rw [path] at only
  have overwrites : (writer.append entries).Throughout time files
      (Files.Overwrites (· = home files.working (segmentsPath writer.directory) ++
        [segmentName (runs.length + 1)]) files) := by
    refine only.throughout (fun {tree changed part c} writes partly changes before => ?_)
      (.refl _ _)
    have leads := Files.leads_join tree.working (segmentsPath writer.directory)
      (isName_segmentName (runs.length + 1))
    have partWrites : part.Writes (Path.join (segmentsPath writer.directory)
        (segmentName (runs.length + 1))) := by cases partly <;> exact writes
    have later := partWrites.overwrites leads changes
    rw [before.working] at later
    exact before.trans later
  refine overwrites.mono fun left changed => ⟨keeps.of_next ?_, ready.of_overwrites changed⟩
  exact changed.mono fun place same => ⟨_, List.mem_cons_self, same⟩

theorem isDraftChange_of_writes {directory : String} {number : Nat} {c : Files.Change}
    (writes : c.Writes (segmentPath directory number)) : IsDraftChange directory c := by
  have isPath : IsDraftPath directory (segmentPath directory number) :=
    .inr ⟨segmentName number, isName_segmentName number, rfl⟩
  cases c with
  | create path =>
    obtain rfl : path = segmentPath directory number := writes
    exact isPath
  | extend path bytes =>
    obtain rfl : path = segmentPath directory number := writes
    exact isPath
  | _ => exact absurd writes id

/-- A writer that stops while it appends leaves a draft. -/
theorem throughout_append (draft : IsDraft files writer.directory) (entries : List StoredEntry) :
    (writer.append entries).Throughout time files (IsDraft · writer.directory) :=
  draft.throughout ((only_append_segment writer entries).mono fun _ => isDraftChange_of_writes)

/-! ## Stopping while closing -/

/-- The change that publishes a store. -/
def publishing (directory : String) : Files.Change :=
  .rename (manifestDraftPath directory) (manifestPath directory)

/-- All of closing but the change that publishes. -/
def prepare (writer : Writer) : FileTask Manifest := do
  let draft := dataDraftPath writer.directory
  let segments := segmentsPath writer.directory
  FileTask.change draft (.create draft)
  let plan := MergePlan.make segments writer.fanIn (writer.segments.map (·.path))
  let output ← plan.run { path := draft }
  if output.entries ≠ writer.appended then
    throw (Refusal.toError (.miscounted output.entries writer.appended))
  let path := dataPath writer.directory
  FileTask.change path (.rename draft path)
  FileTask.removeTree segments
  let manifest : Manifest :=
    { version := Manifest.currentVersion
      entries := output.entries
      segments := writer.segments.length
      digest := output.digest.finish
      created := ← FileTask.now
      checkpoint := writer.checkpoint }
  FileTask.write (manifestDraftPath writer.directory) (Utf8.encode manifest.render)
  pure manifest

theorem close_eq (writer : Writer) : writer.close =
    writer.prepare >>= fun manifest =>
      FileTask.change (manifestPath writer.directory) (publishing writer.directory) >>= fun _ =>
        pure manifest := by
  unfold close prepare publish publishing
  simp only [bind_assoc]
  refine bind_congr fun _ => bind_congr fun output => ?_
  split <;> simp only [bind_assoc, pure_bind]

variable {directory : String}

theorem isDraftPath_beside {name : String} (isName : Path.IsName name)
    (noManifest : name ≠ "manifest.json") (noSegments : name ≠ "segments") :
    IsDraftPath directory (Path.join directory name) :=
  .inl ⟨name, isName, noManifest, noSegments, rfl⟩

theorem isDraftPath_dataDraft : IsDraftPath directory (dataDraftPath directory) :=
  isDraftPath_beside isName_dataDraft (by decide) (by decide)

theorem isDraftPath_data : IsDraftPath directory (dataPath directory) :=
  isDraftPath_beside isName_data (by decide) (by decide)

theorem isDraftPath_manifestDraft : IsDraftPath directory (manifestDraftPath directory) :=
  isDraftPath_beside isName_manifestDraft (by decide) (by decide)

/-- No change to a draft publishes it. -/
theorem ne_publishing_of_isDraftChange {c : Files.Change} (allowed : IsDraftChange directory c) :
    c ≠ publishing directory := by
  rintro rfl
  have isPath : IsDraftPath directory (manifestPath directory) := allowed
  have steps : Path.steps (manifestPath directory) =
      Path.stepsInto directory ++ [.enter "manifest.json"] := Path.steps_join isName_manifest
  rcases isPath with ⟨name, isName, noManifest, -, same⟩ | ⟨name, isName, same⟩
  · rw [same, Path.steps_join isName, List.append_cancel_left_eq, List.singleton_inj] at steps
    exact noManifest (Path.Step.enter.inj steps)
  · rw [same, Path.steps_join isName, segmentsPath, Path.stepsInto_join isName_segments] at steps
    have lengths := congrArg List.length steps
    simp at lengths

/-- Merging the segments makes only changes to a draft. -/
theorem only_mergeSegments (writer : Writer) :
    ((MergePlan.make (segmentsPath writer.directory) writer.fanIn
      (writer.segments.map (·.path))).run { path := dataDraftPath writer.directory }).Only
        (IsDraftChange writer.directory) :=
  MergePlan.only_run (MergePlan.staysIn_make _ _ _) (fun _ => .inr) (fun _ isIn _ => .inr isIn)
    (fun _ _ => trivial) fun _ => isDraftPath_dataDraft

/-- Before it publishes, closing makes only changes to a draft, and removes directories. -/
theorem only_prepare_changes (writer : Writer) :
    writer.prepare.Only fun c => IsDraftChange writer.directory c ∨ c.WritesNoFile := by
  have changes {path : String} {c : Files.Change} (allowed : IsDraftChange writer.directory c) :
      (FileTask.change path c).Only fun c =>
        IsDraftChange writer.directory c ∨ c.WritesNoFile :=
    FileTask.only_change (.inl allowed)
  have merges := writer.only_mergeSegments.mono fun c allowed =>
    (.inl allowed : IsDraftChange writer.directory c ∨ c.WritesNoFile)
  have removes : (FileTask.removeTree (segmentsPath writer.directory)).Only fun c =>
      IsDraftChange writer.directory c ∨ c.WritesNoFile :=
    (FileTask.only_removeTree _).mono fun _ => .inr
  refine (changes isDraftPath_dataDraft.create).bind fun _ => merges.bind fun output => ?_
  have later : (do
      FileTask.change (dataPath writer.directory)
        (.rename (dataDraftPath writer.directory) (dataPath writer.directory))
      FileTask.removeTree (segmentsPath writer.directory)
      let manifest : Manifest :=
        { version := Manifest.currentVersion
          entries := output.entries
          segments := writer.segments.length
          digest := output.digest.finish
          created := ← FileTask.now
          checkpoint := writer.checkpoint }
      FileTask.write (manifestDraftPath writer.directory) (Utf8.encode manifest.render)
      pure manifest : FileTask Manifest).Only fun c =>
        IsDraftChange writer.directory c ∨ c.WritesNoFile :=
    (changes (isDraftPath_data.rename _)).bind fun _ => removes.bind fun _ =>
      FileTask.only_now.bind fun _ =>
        ((changes isDraftPath_manifestDraft.create).bind fun _ =>
          changes (isDraftPath_manifestDraft.extend _)).bind fun _ => FileTask.only_pure _
  split
  · exact (FileTask.only_throw _).bind fun _ => later
  · exact later

theorem only_prepare (writer : Writer) : writer.prepare.Only (· ≠ publishing writer.directory) := by
  refine writer.only_prepare_changes.mono ?_
  rintro c (allowed | noFile) same
  · exact ne_publishing_of_isDraftChange allowed same
  · rw [same] at noFile
    exact noFile

/-- A task on a draft goes on from a draft. -/
theorem throughout_bind_of_draft {α β : Type} {task : FileTask α} {next : α → FileTask β}
    (draft : IsDraft files directory) (only : task.Only (IsDraftChange directory))
    (later : ∀ value after, IsDraft after directory →
      (next value).Throughout time after (IsUnpublished · directory)) :
    (task >>= next).Throughout time files (IsUnpublished · directory) := by
  have throughout : task.Throughout time files (IsDraft · directory) := draft.throughout only
  exact (throughout.mono fun _ => .inl).bind fun value after done =>
    later value after (throughout.last done)

/-- Wherever the removal of the segments breaks off, there is no store. -/
theorem throughout_removeSegments (draft : IsDraft files directory) :
    (FileTask.removeTree (segmentsPath directory)).Throughout time files
      (IsUnpublished · directory) := by
  rcases draft.segments with holds | none
  · exact (draft.completes_removeTree holds).throughout
  · have kind : Program.kindAt files (segmentsPath directory) = Option.none :=
      kindAt_join_eq_none isName_segments (none _ (List.prefix_refl _))
    have looks : (FileTask.look (segmentsPath directory)).Throughout time files
        (IsUnpublished · directory) :=
      (FileTask.Only.unchanged (FileTask.only_look _)).mono fun _ same => same ▸ .inl draft
    refine looks.bind fun found after looked => ?_
    cases looked
    rw [kind]
    exact FileTask.throughout_throw (.inl draft)

/-- The draft of the manifest is written to a draft. -/
theorem throughout_writeManifest (unpublished : IsUnpublished files directory) (text : Bytes) :
    (FileTask.write (manifestDraftPath directory) text).Throughout time files
      (IsUnpublished · directory) := by
  have created {after : Files}
      (changes : files.change (.create (manifestDraftPath directory)) = .ok after) :
      IsDraft after directory := by
    have enters : files.Enters directory := by
      cases Files.edit_of_change changes with
      | create named _ =>
        exact (isDraftPath_manifestDraft.place
          (isDraftPath_manifestDraft.locate_of_named named)).2
    have draft : IsDraft files directory := by
      rcases unpublished with draft | room
      · exact draft
      · exact room.isDraft enters
    exact draft.of_change isDraftPath_manifestDraft.create changes
  refine (FileTask.throughout_change unpublished fun part after partly changes => ?_).bind
    fun _ after done => ?_
  · cases partly
    exact .inl (created changes)
  · have draft := created (FileTask.achieves_change.of_ok done)
    have extended : (FileTask.change (manifestDraftPath directory)
        (.extend (manifestDraftPath directory) text)).Throughout time after (IsDraft · directory) :=
      draft.throughout (FileTask.only_change (isDraftPath_manifestDraft.extend text))
    exact extended.mono fun _ => .inl

/-- Wherever closing breaks off before its last change, there is no store. -/
theorem throughout_prepare (draft : IsDraft files writer.directory) :
    writer.prepare.Throughout time files (IsUnpublished · writer.directory) := by
  refine throughout_bind_of_draft draft
    (FileTask.only_change isDraftPath_dataDraft.create) fun _ created draftCreated => ?_
  refine throughout_bind_of_draft draftCreated writer.only_mergeSegments
    fun output merged draftMerged => ?_
  split
  · exact FileTask.throughout_throw (.inl draftMerged)
  · refine throughout_bind_of_draft draftMerged
      (FileTask.only_change (isDraftPath_data.rename _)) fun _ renamed draftRenamed => ?_
    have removes : (FileTask.removeTree (segmentsPath writer.directory)).Throughout time renamed
        (IsUnpublished · writer.directory) := throughout_removeSegments draftRenamed
    refine removes.bind fun _ removed done => ?_
    have here := removes.last done
    have shows : FileTask.now.Throughout time removed (IsUnpublished · writer.directory) :=
      (FileTask.Only.unchanged FileTask.only_now).mono fun _ same => same ▸ here
    refine shows.bind fun moment after done => ?_
    cases done
    have writes (text : Bytes) : (FileTask.write (manifestDraftPath writer.directory) text).Throughout
        time removed (IsUnpublished · writer.directory) := throughout_writeManifest here text
    exact (writes _).bind fun _ last done => FileTask.throughout_pure ((writes _).last done)

/-- A writer that stops while it closes leaves no store, or it has made its last change, and then all
of closing is done. -/
theorem breaksOff_close (draft : IsDraft files writer.directory) {made : List Files.Change}
    (breaks : Program.BreaksOff time writer.close.run files made left) :
    publishing writer.directory ∉ made ∧ IsUnpublished left writer.directory ∨
      publishing writer.directory ∈ made ∧
        ∃ manifest, writer.close.runOn time files = (.ok manifest, left) := by
  have throughout : writer.prepare.Throughout time files (IsUnpublished · writer.directory) :=
    throughout_prepare draft
  have only := writer.only_prepare
  rw [close_eq] at breaks ⊢
  rcases FileTask.breaksOff_bind breaks with first | ⟨manifest, after, late, done, rfl, last⟩
  · exact .inl ⟨fun member => only.made first _ member rfl, throughout made left first⟩
  · have before : publishing writer.directory ∉ writer.prepare.run.changes time files :=
      fun member => only.made (Program.breaksOff_run time writer.prepare.run files) _ member rfl
    have here := throughout.last done
    cases last with
    | here =>
      rw [List.append_nil]
      exact .inl ⟨before, here⟩
    | changed changes later =>
      cases later
      refine .inr ⟨List.mem_append_right _ List.mem_cons_self, manifest, ?_⟩
      rw [FileTask.runOn_bind_of_ok done, FileTask.runOn_bind_of_ok (FileTask.runOn_change changes)]
      rfl
    | failed fails later =>
      cases later
      rw [List.append_nil]
      exact .inl ⟨before, here⟩

end Store.Writer

end TreeExport

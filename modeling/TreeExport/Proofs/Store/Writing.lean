import TreeExport.Proofs.Store.Passes
import TreeExport.Store.Reader

/-!
# What a writer writes

A writer that has appended runs keeps each in a segment of its own (`Store.Writer.Keeps`);
`achieves_append` adds one more, and `achieves_close` turns what is kept into a published store,
whose entries are the stable sort by path of all that was appended.
-/

namespace TreeExport

open Files (home Leads Overwrites AgreesOff)

namespace Store

variable {files : Files}

/-- The place of a name in the directory of a store. -/
def spot (working : Location) (directory name : String) : Location :=
  home working directory ++ [name]

/-- The names of the first segments. -/
def segmentNames (count : Nat) : List String :=
  (List.range count).map fun index => segmentName (index + 1)

theorem segmentNames_succ (count : Nat) :
    segmentNames (count + 1) = segmentNames count ++ [segmentName (count + 1)] := by
  rw [segmentNames, List.range_succ, List.map_append]
  rfl

theorem isName_of_mem_segmentNames {count : Nat} {name : String}
    (member : name ∈ segmentNames count) : Path.IsName name := by
  obtain ⟨index, -, rfl⟩ := List.mem_map.mp member
  exact isName_segmentName _

theorem ne_mergeName_of_mem_segmentNames {count : Nat} {name : String}
    (member : name ∈ segmentNames count) (pass group : Nat) : name ≠ mergeName pass group := by
  obtain ⟨index, -, rfl⟩ := List.mem_map.mp member
  exact segmentName_ne_mergeName _ _ _

theorem segmentName_notMem_segmentNames (count : Nat) :
    segmentName (count + 1) ∉ segmentNames count := by
  intro member
  obtain ⟨index, below, same⟩ := List.mem_map.mp member
  have := Nat.succ.inj (segmentName_inj same)
  have := List.mem_range.mp below
  omega

/-- What lies in the directory of segments is none of the files beside it. -/
theorem not_inside_segments (working : Location) (directory name : String) :
    ¬ MergePlan.Inside working (segmentsPath directory) (spot working directory name) := by
  rintro ⟨other, same⟩
  rw [segmentsPath, Files.home_join isName_segments] at same
  have lengths := congrArg List.length same
  simp only [spot, List.length_append, List.length_singleton] at lengths
  omega

theorem spot_ne {working : Location} {directory name other : String} (differ : name ≠ other) :
    spot working directory name ≠ spot working directory other := by
  intro same
  exact differ (by simpa [spot] using same)

theorem spot_not_below {working : Location} {directory name other : String}
    (differ : name ≠ other) :
    ¬ spot working directory name <+: spot working directory other := by
  intro within
  refine spot_ne differ (within.eq_of_length ?_)
  simp only [spot, List.length_append, List.length_singleton]

/-- The directory of segments is there and can be named. -/
structure IsReady (files : Files) (directory : String) : Prop where
  there : files.get? (spot files.working directory "segments") = some .directory
  nameable : Path.fault? (segmentsPath directory) = none

theorem IsReady.of_overwrites {places : Location → Prop} {before after : Files}
    {directory : String} (ready : IsReady before directory)
    (overwrites : Overwrites places before after) : IsReady after directory := by
  refine ⟨?_, ready.nameable⟩
  rw [overwrites.working]
  exact overwrites.directories _ ready.there

theorem kindAt_segments {directory : String} (ready : IsReady files directory)
    (enters : files.Enters directory) :
    Program.kindAt files (segmentsPath directory) = some .directory := by
  have located : files.locate (segmentsPath directory) =
      .ok (spot files.working directory "segments") :=
    Files.locate_join isName_segments ready.nameable enters (by decide)
  simp only [Program.kindAt, Files.reach, located, bind, Except.bind, ready.there, pure,
    Except.pure, Except.toOption, Option.join_some, Option.map_some, Node.kind]

namespace Writer

variable {time : Moment} {writer : Writer} {runs : List (List StoredEntry)}

/-- The writer has appended runs, and each is in a segment of its own. -/
structure Keeps (writer : Writer) (files : Files) (runs : List (List StoredEntry)) : Prop where
  paths : writer.segments.map Segment.path =
    (segmentNames runs.length).map (Path.join (segmentsPath writer.directory))
  holds : List.Forall₂ (files.Holds (segmentsPath writer.directory)) (segmentNames runs.length) runs
  sound : ∀ run ∈ runs, IsRun run
  nonempty : ∀ run ∈ runs, run ≠ []
  appended : writer.appended = runs.flatten.length

/-- A writer that has appended nothing keeps nothing. -/
theorem keeps_nil (files : Files) (fresh : writer.segments = []) (nothing : writer.appended = 0) :
    writer.Keeps files [] where
  paths := by rw [fresh]; rfl
  holds := .nil
  sound _ none := absurd none List.not_mem_nil
  nonempty _ none := absurd none List.not_mem_nil
  appended := nothing

theorem Keeps.length {files : Files} (keeps : writer.Keeps files runs) :
    writer.segments.length = runs.length := by
  have lengths := congrArg List.length keeps.paths
  rwa [List.length_map, List.length_map, segmentNames, List.length_map, List.length_range]
    at lengths

/-- What is done to the next segment is nothing to those before. -/
theorem Keeps.of_next {left : Files} (keeps : writer.Keeps files runs)
    (overwrites : Overwrites (Files.AmongNames files.working (segmentsPath writer.directory)
      [segmentName (runs.length + 1)]) files left) : writer.Keeps left runs := by
  refine ⟨keeps.paths, ?_, keeps.sound, keeps.nonempty, keeps.appended⟩
  refine Files.holds_all keeps.holds overwrites fun name member here => ?_
  rw [List.mem_singleton.mp here] at member
  exact segmentName_notMem_segmentNames _ member

/-! ## Appending -/

/-- An entry that is not below the one before it is written before the rest. -/
theorem writeEntries_cons {segment : Segment} {previous : Option String} {entry : StoredEntry}
    (short : entry.IsShort) (above : ∀ path ∈ previous, path ≤ entry.path)
    (rest : List StoredEntry) :
    writeEntries segment previous (entry :: rest) =
      FileTask.change segment.path (.extend segment.path entry.bytes) >>= fun _ =>
        writeEntries ⟨segment.path, segment.entries + 1, segment.bytes + entry.bytes.length⟩
          (some entry.path) rest := by
  conv => lhs; unfold writeEntries
  rw [StoredEntry.encode_of_isShort short]
  cases previous with
  | none => rfl
  | some path =>
    have ordered : ¬ entry.path < path := String.not_lt.mpr (above path rfl)
    simp only [ordered, if_false]

/-- An entry below the one before it is refused. -/
theorem writeEntries_below {segment : Segment} {path : String} {entry : StoredEntry}
    (below : entry.path < path) (rest : List StoredEntry) :
    writeEntries segment (some path) (entry :: rest) =
      throw (Refusal.toError (.outOfOrder entry.path path)) := by
  unfold writeEntries
  simp only [below, if_true]
  rfl

/-- Entries in order, none below `previous`, are written one after the other. -/
theorem achieves_writeEntries {segment : Segment} {previous : Option String} {place : Location}
    {content : Bytes} {entries : List StoredEntry}
    (leads : Leads files.working segment.path place)
    (there : files.get? place = some (.file content)) (run : IsRun entries)
    (above : ∀ path ∈ previous, ∀ entry ∈ entries, path ≤ entry.path) :
    (writeEntries segment previous entries).Achieves time files fun written after =>
      written.path = segment.path ∧ written.entries = segment.entries + entries.length ∧
        after.get? place = some (.file (content ++ StoredEntry.encodeAll entries)) ∧
        Overwrites (· = place) files after := by
  induction entries generalizing files segment previous content with
  | nil =>
    refine FileTask.achieves_pure ⟨rfl, rfl, ?_, .refl _ _⟩
    rw [StoredEntry.encodeAll_nil, List.append_nil]
    exact there
  | cons entry rest ih =>
    rw [writeEntries_cons (run.short entry List.mem_cons_self)
      fun path same => above path same entry List.mem_cons_self]
    refine FileTask.achieves_change.bind fun _ after extended => ?_
    obtain ⟨old, was, now, overwrites⟩ := Files.extend_ok leads extended
    rw [there] at was
    cases was
    have leadsAfter : Leads after.working
        (⟨segment.path, segment.entries + 1, segment.bytes + entry.bytes.length⟩ : Segment).path
        place := overwrites.working ▸ leads
    have later : IsRun rest :=
      ⟨run.sorted.tail, fun other member => run.short other (List.mem_cons_of_mem _ member)⟩
    have laterAbove : ∀ path ∈ some entry.path, ∀ other ∈ rest, path ≤ other.path := by
      rintro path same other member
      cases same
      exact run.sorted.head_le member
    refine (ih leadsAfter now later laterAbove).mono ?_
    rintro written last ⟨path, count, final, further⟩
    refine ⟨path, ?_, ?_, overwrites.trans further⟩
    · rw [count, List.length_cons, Nat.add_assoc, Nat.add_comm 1]
    · rw [final, StoredEntry.encodeAll_cons, List.append_assoc]

/-- A run that is not empty becomes one more segment. -/
theorem achieves_append {entries : List StoredEntry} (keeps : writer.Keeps files runs)
    (run : IsRun entries) (nonempty : entries ≠ []) :
    (writer.append entries).Achieves time files fun answer after =>
      answer.2.Keeps after (runs ++ [entries]) ∧ answer.2.directory = writer.directory ∧
        answer.2.checkpoint = writer.checkpoint ∧
        Overwrites (MergePlan.Inside files.working (segmentsPath writer.directory)) files
          after := by
  have number : Path.join (segmentsPath writer.directory) (segmentName (runs.length + 1)) =
      segmentPath writer.directory (writer.segments.length + 1) := by
    rw [keeps.length]
    rfl
  have leads := Files.leads_join files.working (segmentsPath writer.directory)
    (isName_segmentName (runs.length + 1))
  rw [number] at leads
  have notEmpty : entries.isEmpty = false := by
    cases entries with
    | nil => exact absurd rfl nonempty
    | cons => rfl
  unfold append
  rw [notEmpty]
  refine FileTask.achieves_change.bind fun _ created changes => ?_
  obtain ⟨fresh, first⟩ := Files.create_ok leads changes
  have leadsCreated : Leads created.working
      (⟨segmentPath writer.directory (writer.segments.length + 1), 0, 0⟩ : Segment).path
      (home files.working (segmentsPath writer.directory) ++ [segmentName (runs.length + 1)]) := by
    rw [first.working]
    exact leads
  refine (achieves_writeEntries leadsCreated fresh run fun _ none => by cases none).bind ?_
  rintro segment after ⟨path, count, now, second⟩
  have both := first.trans second
  have inside : Overwrites (Files.AmongNames files.working (segmentsPath writer.directory)
      [segmentName (runs.length + 1)]) files after :=
    both.mono fun place same => ⟨_, List.mem_cons_self, same⟩
  refine FileTask.achieves_pure ⟨⟨?_, ?_, ?_, ?_, ?_⟩, rfl, rfl,
    both.mono fun place same => ⟨_, same⟩⟩
  · rw [List.map_append, keeps.paths, List.length_append, List.length_singleton,
      segmentNames_succ, List.map_append, List.map_singleton, List.map_singleton, path, number]
  · rw [List.length_append, List.length_singleton, segmentNames_succ]
    refine List.rel_append (keeps.of_next inside).holds (.cons ?_ .nil)
    · unfold Files.Holds
      rw [both.working, now, List.nil_append]
  · intro other member
    rcases List.mem_append.mp member with early | late
    · exact keeps.sound other early
    · exact List.mem_singleton.mp late ▸ run
  · intro other member
    rcases List.mem_append.mp member with early | late
    · exact keeps.nonempty other early
    · exact List.mem_singleton.mp late ▸ nonempty
  · simp only [List.flatten_append, List.flatten_cons, List.flatten_nil, List.append_nil,
      List.length_append, keeps.appended, count, Nat.zero_add]

/-! ## Closing -/

/-- The manifest that a writer publishes at a time. -/
def manifestAt (writer : Writer) (time : Moment) (runs : List (List StoredEntry)) : Manifest where
  version := Manifest.currentVersion
  entries := runs.flatten.length
  segments := runs.length
  digest := Sha256.hash (StoredEntry.encodeAll (stableSort StoredEntry.path runs.flatten))
  created := time
  checkpoint := writer.checkpoint

end Writer

/-- A published store whose file of entries holds some entries. -/
structure Publishes (files : Files) (directory : String) (manifest : Manifest)
    (entries : List StoredEntry) : Prop where
  enters : files.Enters directory
  dataNameable : Path.fault? (dataPath directory) = none
  manifestNameable : Path.fault? (manifestPath directory) = none
  data : files.get? (spot files.working directory "entries.dat") =
    some (.file (StoredEntry.encodeAll entries))
  manifest : files.get? (spot files.working directory "manifest.json") =
    some (.file (Utf8.encode manifest.render))

namespace Writer

variable {time : Moment} {writer : Writer} {runs : List (List StoredEntry)}

/-- Publishing a manifest changes nothing but the manifest and its draft. -/
theorem achieves_publish {directory : String} {manifest : Manifest} :
    (publish directory manifest).Achieves time files fun _ after =>
      after.Enters directory ∧ Path.fault? (manifestPath directory) = none ∧
        after.get? (spot files.working directory "manifest.json") =
          some (.file (Utf8.encode manifest.render)) ∧
        Overwrites (fun place => place = spot files.working directory "manifest.json.tmp" ∨
          place = spot files.working directory "manifest.json") files after := by
  refine (FileTask.achieves_write
    (Files.leads_join files.working directory isName_manifestDraft)).bind ?_
  rintro _ written ⟨there, overwrites⟩
  refine FileTask.achieves_change.mono fun _ after renamed => ?_
  obtain ⟨nameable, enters⟩ := Files.enters_of_rename isName_manifest renamed
  have leadsDraft := Files.leads_join written.working directory isName_manifestDraft
  have leads := Files.leads_join written.working directory isName_manifest
  obtain ⟨content, was, now, further⟩ := Files.rename_ok leadsDraft leads
    (spot_ne (by decide)) renamed
  rw [overwrites.working] at was now further
  rw [there] at was
  rw [← Node.file.inj (Option.some.inj was)] at now
  exact ⟨further.enters enters, nameable, now,
    (overwrites.mono fun _ => .inl).trans further⟩

/-- Merging the segments into an empty draft fills it with the stable sort of all runs. -/
theorem achieves_mergeSegments (keeps : writer.Keeps files runs)
    (empty : files.get? (spot files.working writer.directory "entries.dat.tmp") =
      some (.file [])) :
    ((MergePlan.make (segmentsPath writer.directory) writer.fanIn
      (writer.segments.map (·.path))).run
        { path := dataDraftPath writer.directory }).Achieves time files fun output after =>
          output.entries = writer.appended ∧
          output.digest.finish =
            Sha256.hash (StoredEntry.encodeAll (stableSort StoredEntry.path runs.flatten)) ∧
          after.get? (spot files.working writer.directory "entries.dat.tmp") =
            some (.file (StoredEntry.encodeAll (stableSort StoredEntry.path runs.flatten))) ∧
          Overwrites (fun place => place = spot files.working writer.directory "entries.dat.tmp" ∨
            MergePlan.Inside files.working (segmentsPath writer.directory) place) files after := by
  have goal : Files.goal files.working (dataDraftPath writer.directory) =
      spot files.working writer.directory "entries.dat.tmp" :=
    Files.goal_join files.working writer.directory isName_dataDraft
  have paths : writer.segments.map (·.path) =
    (segmentNames runs.length).map (Path.join (segmentsPath writer.directory)) := keeps.paths
  rw [paths]
  refine (MergePlan.achieves_run (by rw [goal]; exact empty)
    (by rw [goal]; exact not_inside_segments _ _ _) (fun _ => isName_of_mem_segmentNames)
    (fun _ => ne_mergeName_of_mem_segmentNames) keeps.holds keeps.sound).mono ?_
  simp only [goal]
  rintro _ after ⟨rfl, now, overwrites⟩
  refine ⟨?_, rfl, by rwa [List.nil_append] at now, overwrites⟩
  simp only [Output.after, length_stableSort, keeps.appended, Nat.zero_add]

/-- What is left to do of closing when the segments are merged. -/
def finish (writer : Writer) (output : Output) : FileTask Manifest := do
  let path := dataPath writer.directory
  FileTask.change path (.rename (dataDraftPath writer.directory) path)
  FileTask.removeTree (segmentsPath writer.directory)
  let manifest : Manifest :=
    { version := Manifest.currentVersion
      entries := output.entries
      segments := writer.segments.length
      digest := output.digest.finish
      created := ← FileTask.now
      checkpoint := writer.checkpoint }
  publish writer.directory manifest
  pure manifest

theorem close_eq_finish (writer : Writer) : writer.close = (do
    FileTask.change (dataDraftPath writer.directory) (.create (dataDraftPath writer.directory))
    let output ← (MergePlan.make (segmentsPath writer.directory) writer.fanIn
      (writer.segments.map (·.path))).run { path := dataDraftPath writer.directory }
    if output.entries ≠ writer.appended then
      throw (Refusal.toError (.miscounted output.entries writer.appended))
    writer.finish output) :=
  rfl

/-- What the draft holds is published, and the directory of segments taken away. -/
theorem achieves_finish {output : Output} {entries : List StoredEntry} (proper : files.IsProper)
    (ready : IsReady files writer.directory)
    (filled : files.get? (spot files.working writer.directory "entries.dat.tmp") =
      some (.file (StoredEntry.encodeAll entries))) :
    (writer.finish output).Achieves time files fun manifest after =>
      manifest = ⟨Manifest.currentVersion, output.entries, writer.segments.length,
          output.digest.finish, time, writer.checkpoint⟩ ∧
        Publishes after writer.directory manifest entries ∧
        after.get? (spot after.working writer.directory "segments") = none := by
  refine (FileTask.achieves_change.keeping proper).bind ?_
  rintro _ renamed ⟨changes, properRenamed⟩
  obtain ⟨nameable, enters⟩ := Files.enters_of_rename isName_data changes
  obtain ⟨content, was, data, first⟩ := Files.rename_ok
    (Files.leads_join files.working writer.directory isName_dataDraft)
    (Files.leads_join files.working writer.directory isName_data) (spot_ne (by decide)) changes
  rw [← Node.file.inj (Option.some.inj (filled.symm.trans was))] at data
  have there := kindAt_segments (ready.of_overwrites first) (first.enters enters)
  refine (FileTask.achieves_removeTree properRenamed isName_segments there).bind ?_
  rintro _ removed ⟨gone, agrees⟩
  rw [first.working] at gone agrees
  have kept : removed.get? (spot files.working writer.directory "entries.dat") =
      some (.file (StoredEntry.encodeAll entries)) := by
    rw [agrees.same _ (spot_not_below (by decide))]
    exact data
  refine FileTask.achieves_now.bind ?_
  rintro _ _ ⟨rfl, rfl⟩
  refine achieves_publish.bind ?_
  rintro _ after ⟨entersAfter, manifestNameable, manifest, second⟩
  have working : after.working = files.working := by
    rw [second.working, agrees.working, first.working]
  rw [agrees.working, first.working] at manifest second
  refine FileTask.achieves_pure ⟨rfl, ⟨entersAfter, nameable, manifestNameable, ?_, ?_⟩, ?_⟩
  · rw [working, second.same]
    · exact kept
    · rintro (same | same)
      · exact spot_ne (by decide) same
      · exact spot_ne (by decide) same
  · rw [working]
    exact manifest
  · rw [working, second.same]
    · exact gone
    · rintro (same | same)
      · exact spot_ne (by decide) same
      · exact spot_ne (by decide) same

/-- Closing a writer publishes the stable sort of all that it has appended, and takes the directory
of segments away. -/
theorem achieves_close (proper : files.IsProper) (ready : IsReady files writer.directory)
    (keeps : writer.Keeps files runs) :
    writer.close.Achieves time files fun manifest after =>
      manifest = writer.manifestAt time runs ∧
        Publishes after writer.directory manifest (stableSort StoredEntry.path runs.flatten) ∧
        after.get? (spot after.working writer.directory "segments") = none := by
  have leadsDraft := Files.leads_join files.working writer.directory isName_dataDraft
  rw [close_eq_finish]
  refine (FileTask.achieves_change.keeping proper).bind ?_
  rintro _ created ⟨changes, properCreated⟩
  obtain ⟨fresh, first⟩ := Files.create_ok leadsDraft changes
  -- the draft is none of the segments, so these are as they were
  have keepsCreated : writer.Keeps created runs := by
    refine ⟨keeps.paths, keeps.holds.imp fun name run holds => ?_, keeps.sound, keeps.nonempty,
      keeps.appended⟩
    refine holds.of_overwrites first fun same => ?_
    exact not_inside_segments files.working writer.directory "entries.dat.tmp" ⟨name, same.symm⟩
  have empty : created.get? (spot created.working writer.directory "entries.dat.tmp") =
      some (.file []) := by
    rw [first.working]
    exact fresh
  refine ((achieves_mergeSegments keepsCreated empty).keeping properCreated).bind ?_
  rintro output merged ⟨⟨count, digest, filled, second⟩, properMerged⟩
  have readyMerged : IsReady merged writer.directory :=
    (ready.of_overwrites first).of_overwrites second
  rw [← second.working] at filled
  simp only [count, ne_eq, not_true_eq_false, if_false]
  refine (achieves_finish properMerged readyMerged filled).mono ?_
  rintro _ after ⟨rfl, publishes⟩
  rw [count, keeps.appended, digest, keeps.length] at publishes ⊢
  exact ⟨rfl, publishes⟩

end Writer

end Store

end TreeExport

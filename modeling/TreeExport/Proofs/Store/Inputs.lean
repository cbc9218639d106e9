import TreeExport.Proofs.Files.Tasks
import TreeExport.Proofs.Store.Merging
import TreeExport.Proofs.Store.Reading
import TreeExport.Store.Passes

/-!
# One merge of files

The files that are merged hold any bytes.  A merge of them succeeds, as far as the operations on
files do, exactly if each of them holds entries in order up to its end; it then appends the stable
sort of all their entries to its output (`MergePlan.settles_mergeInto`).
-/

namespace TreeExport

open Files (home goal Leads Overwrites)

/-! ## Names in a directory -/

/-- The file of a name in a directory holds entries and nothing else. -/
def Files.Holds (files : Files) (directory name : String) (entries : List StoredEntry) : Prop :=
  files.get? (home files.working directory ++ [name]) =
    some (.file (StoredEntry.encodeAll entries))

/-- The place is that of one of some names in a directory. -/
def Files.AmongNames (working : Location) (directory : String) (names : List String)
    (place : Location) : Prop :=
  ∃ name ∈ names, place = home working directory ++ [name]

theorem Files.Holds.of_overwrites {places : Location → Prop} {before after : Files}
    {directory name : String} {entries : List StoredEntry}
    (holds : before.Holds directory name entries) (overwrites : Overwrites places before after)
    (off : ¬ places (home before.working directory ++ [name])) :
    after.Holds directory name entries := by
  unfold Files.Holds
  rw [overwrites.working, overwrites.same _ off]
  exact holds

theorem Files.Holds.of_names {before after : Files} {directory name : String}
    {names : List String} {entries : List StoredEntry}
    (holds : before.Holds directory name entries)
    (overwrites : Overwrites (AmongNames before.working directory names) before after)
    (off : name ∉ names) : after.Holds directory name entries := by
  refine holds.of_overwrites overwrites ?_
  rintro ⟨other, member, same⟩
  obtain rfl : name = other := by simpa using same
  exact off member

theorem Files.holds_all {before after : Files} {directory : String} {names written : List String}
    {contents : List (List StoredEntry)}
    (holds : List.Forall₂ (before.Holds directory) names contents)
    (overwrites : Overwrites (AmongNames before.working directory written) before after)
    (apart : ∀ name ∈ names, name ∉ written) :
    List.Forall₂ (after.Holds directory) names contents := by
  induction holds with
  | nil => exact .nil
  | cons here _ ih =>
    exact .cons (here.of_names overwrites (apart _ List.mem_cons_self))
      (ih fun name member => apart name (List.mem_cons_of_mem _ member))

/-- A run that a writer can have written: sorted, and of entries whose lengths can be written. -/
structure IsRun (entries : List StoredEntry) : Prop where
  sorted : SortedBy StoredEntry.path entries
  short : ∀ entry ∈ entries, entry.IsShort

/-- The stable sort of runs, one after the other, is a run. -/
theorem isRun_stableSort {runs : List (List StoredEntry)} (sound : ∀ run ∈ runs, IsRun run) :
    IsRun (stableSort StoredEntry.path runs.flatten) := by
  refine ⟨sortedBy_stableSort _, fun entry member => ?_⟩
  obtain ⟨run, here, inside⟩ := List.mem_flatten.mp (mem_stableSort.mp member)
  exact (sound run here).short entry inside

/-! ## Files to be merged -/

/-- A file that is merged: its path and what it holds. -/
structure MergeInput where
  path : String
  content : Bytes
  deriving DecidableEq

namespace MergeInput

/-- What is read of a file. -/
def reading (input : MergeInput) : Reading :=
  Reading.ofBytes input.content

/-- The file holds entries up to its end, and no path is less than the one before. -/
structure IsSound (input : MergeInput) : Prop where
  complete : input.reading.fault = none
  sorted : SortedBy StoredEntry.path input.reading.entries

instance (input : MergeInput) : Decidable input.IsSound :=
  decidable_of_iff (input.reading.fault = none ∧ SortedBy StoredEntry.path input.reading.entries)
    ⟨fun both => ⟨both.1, both.2⟩, fun sound => ⟨sound.complete, sound.sorted⟩⟩

/-- The stable sort by path of the entries of files, one file after the other. -/
def sortAll (inputs : List MergeInput) : List StoredEntry :=
  stableSort StoredEntry.path (inputs.flatMap fun input => input.reading.entries)

/-- The places of files. -/
def places (working : Location) (inputs : List MergeInput) : List Location :=
  inputs.map fun input => goal working input.path

/-- The file of a name in a directory that holds entries and nothing else. -/
def ofRun (directory name : String) (entries : List StoredEntry) : MergeInput :=
  ⟨Path.join directory name, StoredEntry.encodeAll entries⟩

theorem goal_ofRun (working : Location) (directory : String) {name : String}
    (isName : Path.IsName name) (entries : List StoredEntry) :
    goal working (ofRun directory name entries).path = home working directory ++ [name] :=
  Files.goal_join working directory isName

theorem reading_ofRun {directory name : String} {entries : List StoredEntry}
    (run : IsRun entries) : (ofRun directory name entries).reading = ⟨entries, none⟩ :=
  Reading.ofBytes_encodeAll run.short

theorem isSound_ofRun {directory name : String} {entries : List StoredEntry}
    (run : IsRun entries) : (ofRun directory name entries).IsSound := by
  constructor
  · rw [reading_ofRun run]
  · rw [reading_ofRun run]
    exact run.sorted

/-- What comes out of a merge of sound files is a run. -/
theorem isRun_sortAll {inputs : List MergeInput} (sound : ∀ input ∈ inputs, input.IsSound) :
    IsRun (sortAll inputs) := by
  rw [sortAll, List.flatMap_def]
  refine isRun_stableSort fun run member => ?_
  obtain ⟨input, here, rfl⟩ := List.mem_map.mp member
  exact ⟨(sound input here).sorted, Reading.short_ofFeed⟩

end MergeInput

/-- The path of a file leads to what it holds, if it leads anywhere. -/
def Files.Supplies (files : Files) (input : MergeInput) : Prop :=
  files.get? (goal files.working input.path) = some (.file input.content)

theorem Files.Supplies.of_overwrites {places : Location → Prop} {before after : Files}
    {input : MergeInput} (supplies : before.Supplies input)
    (overwrites : Overwrites places before after)
    (off : ¬ places (goal before.working input.path)) : after.Supplies input := by
  unfold Files.Supplies
  rw [overwrites.working, overwrites.same _ off]
  exact supplies

theorem Files.supplies_of_openAt {files : Files} {input : MergeInput}
    (opens : files.openAt input.path = .ok (.file input.content)) : files.Supplies input :=
  (Files.locate_of_openAt opens).2

/-- Files that hold runs in a directory, as files to be merged. -/
theorem Files.Holds.inputs {files : Files} {directory : String} {names : List String}
    {contents : List (List StoredEntry)} (isName : ∀ name ∈ names, Path.IsName name)
    (holds : List.Forall₂ (files.Holds directory) names contents)
    (sound : ∀ run ∈ contents, IsRun run) :
    ∃ inputs : List MergeInput, inputs.map MergeInput.path = names.map (Path.join directory) ∧
      (∀ input ∈ inputs, files.Supplies input ∧ input.IsSound ∧
        ∃ name ∈ names, input.path = Path.join directory name) ∧
      MergeInput.sortAll inputs = stableSort StoredEntry.path contents.flatten := by
  have entries : ∃ inputs : List MergeInput,
      inputs.map MergeInput.path = names.map (Path.join directory) ∧
      (∀ input ∈ inputs, files.Supplies input ∧ input.IsSound ∧
        ∃ name ∈ names, input.path = Path.join directory name) ∧
      inputs.flatMap (fun input => input.reading.entries) = contents.flatten := by
    induction holds with
    | nil => exact ⟨[], rfl, fun _ none => absurd none List.not_mem_nil, rfl⟩
    | @cons name run names contents here _ ih =>
      obtain ⟨inputs, paths, supplied, flat⟩ :=
        ih (fun other member => isName other (List.mem_cons_of_mem _ member))
          fun other member => sound other (List.mem_cons_of_mem _ member)
      have isRun := sound run List.mem_cons_self
      refine ⟨.ofRun directory name run :: inputs, ?_, fun input member => ?_, ?_⟩
      · rw [List.map_cons, List.map_cons, paths]
        rfl
      · rcases List.mem_cons.mp member with rfl | later
        · refine ⟨?_, MergeInput.isSound_ofRun isRun, name, List.mem_cons_self, rfl⟩
          unfold Files.Supplies
          rw [MergeInput.goal_ofRun _ _ (isName name List.mem_cons_self)]
          exact here
        · obtain ⟨supplies, isSound, other, inside, path⟩ := supplied input later
          exact ⟨supplies, isSound, other, List.mem_cons_of_mem _ inside, path⟩
      · rw [List.flatMap_cons, flat, MergeInput.reading_ofRun isRun, List.flatten_cons]
  obtain ⟨inputs, paths, supplied, flat⟩ := entries
  exact ⟨inputs, paths, supplied, by rw [MergeInput.sortAll, flat]⟩

variable {time : Moment} {files : Files} {inputs : List MergeInput}

/-! ## Opening and writing -/

/-- What has been written to an output after some more entries. -/
def Output.after (output : Output) (entries : List StoredEntry) : Output :=
  ⟨output.path, output.entries + entries.length,
    output.digest.update (StoredEntry.encodeAll entries)⟩

theorem Output.after_singleton (output : Output) (entry : StoredEntry) :
    output.after [entry] =
      ⟨output.path, output.entries + 1, output.digest.update entry.bytes⟩ := by
  simp only [Output.after, StoredEntry.encodeAll_cons, StoredEntry.encodeAll_nil, List.append_nil,
    List.length_singleton]

theorem Output.after_cons (output : Output) (entry : StoredEntry) (rest : List StoredEntry) :
    (output.after [entry]).after rest = output.after (entry :: rest) := by
  simp only [Output.after, StoredEntry.encodeAll_cons, StoredEntry.encodeAll_nil, List.append_nil,
    List.length_cons, List.length_nil, Sha256.update_append]
  congr 1
  omega

/-- The run that a file to be merged is. -/
def MergeInput.run (input : MergeInput) : Run :=
  Run.ofNode input.path (.file input.content)

theorem Run.achieves_openFiles (supplied : ∀ input ∈ inputs, files.Supplies input) :
    (openFiles (inputs.map MergeInput.path)).Achieves time files fun runs after =>
      files = after ∧ runs = inputs.map MergeInput.run := by
  induction inputs with
  | nil => exact FileTask.achieves_pure ⟨rfl, rfl⟩
  | cons input rest ih =>
    refine FileTask.achieves_access.bind ?_
    rintro node _ ⟨opened, rfl⟩
    have there : files.Supplies input := supplied input List.mem_cons_self
    have same := (Files.locate_of_openAt opened).2
    obtain rfl : Node.file input.content = node := Option.some.inj (there.symm.trans same)
    refine (ih fun other member => supplied other (List.mem_cons_of_mem _ member)).bind ?_
    rintro _ _ ⟨rfl, rfl⟩
    exact FileTask.achieves_pure ⟨rfl, rfl⟩

theorem Run.runOn_openFiles
    (opens : ∀ input ∈ inputs, files.openAt input.path = .ok (.file input.content)) :
    (openFiles (inputs.map MergeInput.path)).runOn time files =
      (.ok (inputs.map MergeInput.run), files) := by
  induction inputs with
  | nil => rfl
  | cons input rest ih =>
    have opened : (FileTask.access input.path).runOn time files =
        (.ok (.file input.content), files) := FileTask.runOn_access (opens input List.mem_cons_self)
    have later := ih fun other member => opens other (List.mem_cons_of_mem _ member)
    rw [List.map_cons, openFiles, FileTask.runOn_bind_of_ok opened, FileTask.runOn_bind_of_ok later]
    rfl

theorem Output.achieves_write {output : Output} {content : Bytes} {entry : StoredEntry}
    (there : files.get? (goal files.working output.path) = some (.file content))
    (short : entry.IsShort) :
    (output.write entry).Achieves time files fun written after =>
      written = output.after [entry] ∧
        after.get? (goal files.working output.path) = some (.file (content ++ entry.bytes)) ∧
        Overwrites (· = goal files.working output.path) files after := by
  unfold Output.write
  rw [StoredEntry.encode_of_isShort short]
  refine FileTask.achieves_change.bind fun _ after extended => FileTask.achieves_pure ?_
  obtain ⟨-, old, was, now, overwrites⟩ := Files.extend_at_goal extended
  rw [there] at was
  cases was
  exact ⟨(Output.after_singleton output entry).symm, now, overwrites⟩

theorem Output.achieves_writeAll {output : Output} {content : Bytes} {entries : List StoredEntry}
    (there : files.get? (goal files.working output.path) = some (.file content))
    (short : ∀ entry ∈ entries, entry.IsShort) :
    (output.writeAll entries).Achieves time files fun written after =>
      written = output.after entries ∧
        after.get? (goal files.working output.path) =
          some (.file (content ++ StoredEntry.encodeAll entries)) ∧
        Overwrites (· = goal files.working output.path) files after := by
  induction entries generalizing files output content with
  | nil =>
    refine FileTask.achieves_pure ⟨rfl, ?_, .refl _ _⟩
    rw [StoredEntry.encodeAll_nil, List.append_nil]
    exact there
  | cons entry rest ih =>
    refine (Output.achieves_write there (short entry List.mem_cons_self)).bind ?_
    rintro _ after ⟨rfl, now, overwrites⟩
    have path : (output.after [entry]).path = output.path := rfl
    have nowAfter : after.get? (goal after.working (output.after [entry]).path) =
        some (.file (content ++ entry.bytes)) := by
      rw [path, overwrites.working]
      exact now
    refine (ih nowAfter fun other member => short other (List.mem_cons_of_mem _ member)).mono ?_
    rintro _ last ⟨rfl, final, later⟩
    rw [path, overwrites.working] at final later
    refine ⟨Output.after_cons output entry rest, ?_, overwrites.trans later⟩
    rw [final, StoredEntry.encodeAll_cons, List.append_assoc]

/-- Entries can be written to a file that can be opened. -/
theorem Output.exists_writeAll {output : Output} {content : Bytes} {entries : List StoredEntry}
    (opens : files.openAt output.path = .ok (.file content))
    (short : ∀ entry ∈ entries, entry.IsShort) :
    ∃ after, (output.writeAll entries).runOn time files = (.ok (output.after entries), after) := by
  induction entries generalizing files output content with
  | nil => exact ⟨files, rfl⟩
  | cons entry rest ih =>
    obtain ⟨middle, changes, opensMiddle⟩ := Files.extend_of_openAt opens entry.bytes
    have wrote : (output.write entry).runOn time files = (.ok (output.after [entry]), middle) := by
      unfold Output.write
      rw [StoredEntry.encode_of_isShort (short entry List.mem_cons_self), Output.after_singleton]
      exact FileTask.runOn_bind_of_ok (FileTask.runOn_change changes) _
    have path : (output.after [entry]).path = output.path := rfl
    rw [← path] at opensMiddle
    obtain ⟨after, done⟩ :=
      ih opensMiddle fun other member => short other (List.mem_cons_of_mem _ member)
    refine ⟨after, ?_⟩
    rw [Output.writeAll, FileTask.runOn_bind_of_ok wrote, done, Output.after_cons]

/-! ## Merging -/

namespace MergePlan

theorem complete_iff : (Merging.ofRuns (inputs.map MergeInput.run)).fault = none ↔
    ∀ input ∈ inputs, input.IsSound := by
  rw [Merging.fault_ofRuns_eq_none_iff, List.forall_mem_map]
  refine forall₂_congr fun input _ => ?_
  simp only [MergeInput.run, Run.ofNode, Option.map_eq_none_iff]
  exact ⟨fun both => ⟨both.1, both.2⟩, fun sound => ⟨sound.complete, sound.sorted⟩⟩

theorem ofRuns_of_sound (sound : ∀ input ∈ inputs, input.IsSound) :
    Merging.ofRuns (inputs.map MergeInput.run) = ⟨MergeInput.sortAll inputs, none⟩ := by
  have runs := Merging.fault_ofRuns_eq_none_iff.mp (complete_iff.mpr sound)
  rw [Merging.ofRuns_eq_stableSort (fun run member => (runs run member).1)
    fun run member => (runs run member).2, List.flatMap_map]
  rfl

/-- A merge appends the stable sort of all entries to its output if every file is sound, and
fails if one is not. -/
theorem settles_mergeInto {output : Output} {content : Bytes}
    (there : files.get? (goal files.working output.path) = some (.file content))
    (supplied : ∀ input ∈ inputs, files.Supplies input) :
    (mergeInto output (inputs.map MergeInput.path)).Settles time files
      (∀ input ∈ inputs, input.IsSound) fun merged after =>
        merged = output.after (MergeInput.sortAll inputs) ∧
        after.get? (goal files.working output.path) =
          some (.file (content ++ StoredEntry.encodeAll (MergeInput.sortAll inputs))) ∧
        Overwrites (· = goal files.working output.path) files after := by
  refine (Run.achieves_openFiles supplied).bindSettles ?_
  rintro _ _ ⟨rfl, rfl⟩
  by_cases sound : ∀ input ∈ inputs, input.IsSound
  · refine FileTask.Achieves.settles ?_ sound
    rw [ofRuns_of_sound sound]
    refine (Output.achieves_writeAll there (MergeInput.isRun_sortAll sound).short).bind ?_
    rintro _ after ⟨rfl, now, overwrites⟩
    exact FileTask.achieves_pure ⟨rfl, now, overwrites⟩
  · refine FileTask.settles_of_not (fun value after done => ?_) sound
    obtain ⟨written, middle, -, done⟩ := FileTask.runOn_bind_ok done
    have stops : (Merging.ofRuns (inputs.map MergeInput.run)).fault ≠ none :=
      fun complete => sound (complete_iff.mp complete)
    split at done
    · cases done
    · next complete => exact stops complete

/-- A merge of sound files that can be opened, to an output that can be opened, is done. -/
theorem exists_mergeInto {output : Output} {content : Bytes}
    (opens : ∀ input ∈ inputs, files.openAt input.path = .ok (.file input.content))
    (opensOutput : files.openAt output.path = .ok (.file content))
    (sound : ∀ input ∈ inputs, input.IsSound) :
    ∃ after, (mergeInto output (inputs.map MergeInput.path)).runOn time files =
      (.ok (output.after (MergeInput.sortAll inputs)), after) := by
  obtain ⟨after, wrote⟩ : ∃ after,
      (output.writeAll (MergeInput.sortAll inputs)).runOn time files =
        (.ok (output.after (MergeInput.sortAll inputs)), after) :=
    Output.exists_writeAll opensOutput (MergeInput.isRun_sortAll sound).short
  refine ⟨after, ?_⟩
  rw [mergeInto, FileTask.runOn_bind_of_ok (Run.runOn_openFiles opens), ofRuns_of_sound sound]
  rw [FileTask.runOn_bind_of_ok wrote]
  rfl

/-- Removing the files of names in a directory takes them away and nothing else. -/
theorem achieves_removeAll {directory : String}
    (named : ∀ input ∈ inputs, ∃ name, Path.IsName name ∧ input.path = Path.join directory name) :
    (removeAll (inputs.map MergeInput.path)).Achieves time files fun _ after =>
      (∀ place ∈ MergeInput.places files.working inputs, after.get? place = none) ∧
        Overwrites (· ∈ MergeInput.places files.working inputs) files after := by
  induction inputs generalizing files with
  | nil => exact FileTask.achieves_pure ⟨fun _ none => absurd none List.not_mem_nil, .refl _ _⟩
  | cons input rest ih =>
    refine FileTask.achieves_change.bind fun _ after removed => ?_
    obtain ⟨name, isName, path⟩ := named input List.mem_cons_self
    have leads : Leads files.working input.path (goal files.working input.path) := by
      rw [path, Files.goal_join _ _ isName]
      exact Files.leads_join files.working directory isName
    obtain ⟨gone, overwrites⟩ := Files.removeFile_ok leads removed
    refine (ih fun other member => named other (List.mem_cons_of_mem _ member)).mono ?_
    rintro _ last ⟨goneLater, later⟩
    rw [overwrites.working] at goneLater later
    refine ⟨fun place member => ?_, ?_⟩
    · by_cases inRest : place ∈ MergeInput.places files.working rest
      · exact goneLater place inRest
      · rw [later.same place inRest]
        rcases List.mem_cons.mp member with rfl | deeper
        · exact gone
        · exact absurd deeper inRest
    · exact (overwrites.mono fun place same => List.mem_cons.mpr (.inl same)).trans
        (later.mono fun place => List.mem_cons_of_mem _)

end MergePlan

end TreeExport

import TreeExport.Proofs.Files.Breaks
import TreeExport.Proofs.Store.Writing

/-!
# Opening a store

What a writer finds when it has opened a directory, and what a reader finds in a published store.
-/

namespace TreeExport

open Files (home)

namespace Store

variable {time : Moment} {files after : Files} {directory : String}

/-! ## Opening a writer -/

theorem isReady_of_kindAt
    (there : Program.kindAt files (segmentsPath directory) = some .directory) :
    IsReady files directory := by
  simp only [Program.kindAt, Files.reach, bind, Except.bind, pure, Except.pure] at there
  cases located : files.locate (segmentsPath directory) with
  | error fault =>
    rw [located] at there
    cases there
  | ok place =>
    have leads := Files.leads_join files.working directory isName_segments
    obtain rfl := leads.located rfl located
    rw [located] at there
    simp only [Except.toOption, Option.join_some, Option.map_eq_some_iff] at there
    obtain ⟨node, found, kind⟩ := there
    cases node with
    | file content => cases kind
    | directory =>
      refine ⟨found, ?_⟩
      rw [Files.locate, segmentsPath, Path.steps_join isName_segments] at located
      exact (Files.follow_join_ok isName_segments located).1

theorem isReady_of_settle {answer : Option Fault} (made : answer = none → IsReady files directory)
    (settled : (FileTask.settle (segmentsPath directory) (segmentsPath directory) answer).runOn time
      files = (.ok (), after)) : IsReady after directory := by
  cases answer with
  | none =>
    cases settled
    exact made rfl
  | some fault =>
    obtain ⟨kind, same, looked, rest⟩ := FileTask.runOn_bind_ok settled
    cases looked
    split at rest
    · cases rest
    · next there =>
      cases rest
      exact isReady_of_kindAt (not_not.mp there)

theorem isReady_of_attempt {answer : Option Fault}
    (tried : (FileTask.attempt (.makeDirectory (segmentsPath directory))).runOn time files =
      (.ok answer, after)) (made : answer = none) : IsReady after directory := by
  subst made
  simp only [FileTask.runOn, FileTask.attempt, ExceptT.run_mk, Program.run] at tried
  cases changed : files.change (.makeDirectory (segmentsPath directory)) with
  | error fault =>
    rw [changed] at tried
    cases tried
  | ok made =>
    rw [changed] at tried
    cases tried
    obtain ⟨there, nameable⟩ := Files.makeDirectory_ok isName_segments changed
    rw [← Files.working_change changed] at there
    exact ⟨there, nameable⟩

theorem isReady_of_makeDirectories
    (done : (FileTask.makeDirectories (segmentsPath directory)).runOn time files =
      (.ok (), after)) : IsReady after directory := by
  have full : (segmentsPath directory).isEmpty = false := Path.join_ne_empty isName_segments
  unfold FileTask.makeDirectories at done
  rw [full] at done
  obtain ⟨answer, tried, first, rest⟩ := FileTask.runOn_bind_ok done
  split at rest
  · obtain ⟨_, around, _, rest⟩ := FileTask.runOn_bind_ok rest
    obtain ⟨again, retried, second, settled⟩ := FileTask.runOn_bind_ok rest
    exact isReady_of_settle (isReady_of_attempt second) settled
  · exact isReady_of_settle (isReady_of_attempt first) rest

namespace Writer

theorem only_openAt (directory : String) :
    (openAt directory).Only Files.Change.WritesNoFile := by
  have made : (do
      FileTask.makeDirectories (segmentsPath directory)
      pure { directory := directory } : FileTask Writer).Only Files.Change.WritesNoFile :=
    (FileTask.only_makeDirectories _).bind fun _ => FileTask.only_pure _
  have cleared : (do
      if ← FileTask.isThere (segmentsPath directory) then
        FileTask.removeTree (segmentsPath directory)
      FileTask.makeDirectories (segmentsPath directory)
      pure { directory := directory } : FileTask Writer).Only Files.Change.WritesNoFile := by
    refine ((FileTask.only_look _).bind fun _ => FileTask.only_pure _).bind fun there => ?_
    split
    · exact (FileTask.only_removeTree _).bind fun _ => made
    · exact made
  refine ((FileTask.only_look _).bind fun _ => FileTask.only_pure _).bind fun published => ?_
  split
  · exact (FileTask.only_throw _).bind fun _ => cleared
  · exact cleared

/-- A writer that has been opened has its directory of segments, and no file has been written. -/
theorem openAt_ok {writer : Writer}
    (opened : (openAt directory).runOn time files = (.ok writer, after)) :
    writer = { directory := directory } ∧ IsReady after directory ∧
      after.working = files.working ∧ (files.IsProper → after.IsProper) ∧
      ∀ place, files.HasNoFile place → after.HasNoFile place := by
  have last : ((openAt directory).run.run time files).2 = after := congrArg Prod.snd opened
  have finished : ∀ {start : Files}, (do
      FileTask.makeDirectories (segmentsPath directory)
      pure { directory := directory } : FileTask Writer).runOn time start = (.ok writer, after) →
        writer = { directory := directory } ∧ IsReady after directory := by
    intro start done
    obtain ⟨_, made, directories, rest⟩ := FileTask.runOn_bind_ok done
    cases rest
    exact ⟨rfl, isReady_of_makeDirectories directories⟩
  have both : writer = { directory := directory } ∧ IsReady after directory := by
    obtain ⟨published, looked, _, rest⟩ := FileTask.runOn_bind_ok opened
    split at rest
    · obtain ⟨_, _, thrown, _⟩ := FileTask.runOn_bind_ok rest
      cases thrown
    · obtain ⟨there, found, _, rest⟩ := FileTask.runOn_bind_ok rest
      split at rest
      · obtain ⟨_, removed, _, rest⟩ := FileTask.runOn_bind_ok rest
        exact finished rest
      · exact finished rest
  refine ⟨both.1, both.2, FileTask.working_of_runOn opened, FileTask.isProper_of_runOn opened,
    fun place absent => ?_⟩
  rw [← last]
  exact (only_openAt directory).run
    (fun allowed changes noFile => Files.HasNoFile.change noFile allowed changes) time absent

end Writer

/-! ## Appending -/

namespace Writer

theorem only_writeEntries (segment : Segment) (previous : Option String)
    (entries : List StoredEntry) :
    (writeEntries segment previous entries).Only (Files.Change.Writes segment.path) := by
  induction entries generalizing segment previous with
  | nil => exact FileTask.only_pure _
  | cons entry rest ih =>
    have goesOn (bytes : Bytes) : (do
        FileTask.change segment.path (.extend segment.path bytes)
        writeEntries ⟨segment.path, segment.entries + 1, segment.bytes + bytes.length⟩
          (some entry.path) rest : FileTask Segment).Only (Files.Change.Writes segment.path) := by
      have writes : Files.Change.Writes segment.path (.extend segment.path bytes) := rfl
      exact (FileTask.only_change writes).bind fun _ =>
        ih ⟨segment.path, segment.entries + 1, segment.bytes + bytes.length⟩ (some entry.path)
    unfold writeEntries
    cases previous with
    | none =>
      cases entry.encode with
      | error reason => exact FileTask.only_throw _
      | ok bytes => exact goesOn bytes
    | some above =>
      dsimp only
      split
      · exact FileTask.only_throw _
      · cases entry.encode with
        | error reason => exact FileTask.only_throw _
        | ok bytes => exact goesOn bytes

/-- Appending writes nothing but the file of the next segment. -/
theorem only_append_segment (writer : Writer) (entries : List StoredEntry) :
    (writer.append entries).Only
      (Files.Change.Writes (segmentPath writer.directory (writer.segments.length + 1))) := by
  unfold append
  split
  · exact FileTask.only_pure _
  · have writes : Files.Change.Writes (segmentPath writer.directory (writer.segments.length + 1))
        (.create (segmentPath writer.directory (writer.segments.length + 1))) := rfl
    exact (FileTask.only_change writes).bind fun _ =>
      (only_writeEntries ⟨_, 0, 0⟩ none entries).bind fun _ => FileTask.only_pure _

end Writer

/-! ## Reading a published store -/

variable {manifest : Manifest} {entries : List StoredEntry}

/-- A file of a short name is opened where its directory can be entered. -/
theorem openAt_join {name : String} {content : Bytes} (isName : Path.IsName name)
    (nameable : Path.fault? (Path.join directory name) = none)
    (short : name.utf8ByteSize ≤ Path.maxNameBytes) (enters : files.Enters directory)
    (there : files.get? (spot files.working directory name) = some (.file content)) :
    files.openAt (Path.join directory name) = .ok (.file content) := by
  have located : files.locate (Path.join directory name) = .ok (spot files.working directory name) :=
    Files.locate_join isName nameable enters short
  simp only [Files.openAt, Files.reach, located, bind, Except.bind, pure, Except.pure, there]

theorem Publishes.openAt_data (publishes : Publishes files directory manifest entries) :
    files.openAt (dataPath directory) = .ok (.file (StoredEntry.encodeAll entries)) :=
  openAt_join isName_data publishes.dataNameable (by decide) publishes.enters publishes.data

theorem Publishes.openAt_manifest (publishes : Publishes files directory manifest entries) :
    files.openAt (manifestPath directory) = .ok (.file (Utf8.encode manifest.render)) :=
  openAt_join isName_manifest publishes.manifestNameable (by decide) publishes.enters
    publishes.manifest

theorem kindAt_of_openAt {path : String} {node : Node} (opened : files.openAt path = .ok node) :
    Program.kindAt files path = some node.kind := by
  obtain ⟨located, there⟩ := Files.locate_of_openAt opened
  simp only [Program.kindAt, Files.reach, located, bind, Except.bind, there, pure, Except.pure,
    Except.toOption, Option.join_some, Option.map_some]

theorem Publishes.isPublished (publishes : Publishes files directory manifest entries) :
    (Reader.isPublished directory).runOn time files = (.ok true, files) := by
  have answer : (Reader.isPublished directory).runOn time files =
      (.ok (Program.kindAt files (manifestPath directory) == some .file), files) := rfl
  rw [answer, kindAt_of_openAt publishes.openAt_manifest]
  rfl

/-- Without a file in the place of the manifest no store is published. -/
theorem not_isPublished (absent : files.HasNoFile (spot files.working directory "manifest.json")) :
    (Reader.isPublished directory).runOn time files = (.ok false, files) := by
  have noFile : (Program.kindAt files (manifestPath directory) == some .file) = false := by
    rw [beq_eq_false_iff_ne]
    intro kind
    unfold Program.kindAt Files.reach at kind
    cases located : files.locate (manifestPath directory) with
    | error fault =>
      rw [located] at kind
      cases kind
    | ok place =>
      obtain rfl := (Files.leads_join files.working directory isName_manifest).located rfl located
      rw [located] at kind
      cases node : files.get? (home files.working directory ++ ["manifest.json"]) with
      | none =>
        simp [bind, Except.bind, node, pure, Except.pure, Except.toOption] at kind
      | some node' =>
        cases node' with
        | file content => exact absent content node
        | directory =>
          simp [bind, Except.bind, node, pure, Except.pure, Except.toOption, Node.kind] at kind
  have answer : (Reader.isPublished directory).runOn time files =
      (.ok (Program.kindAt files (manifestPath directory) == some .file), files) := rfl
  rw [answer, noFile]

/-- A reader of a published store lists its entries, to the end. -/
theorem Publishes.reads (publishes : Publishes files directory manifest entries)
    (short : ∀ entry ∈ entries, entry.IsShort) {reader : Reader}
    (here : reader.directory = directory) :
    reader.entries.runOn time files = (.ok ⟨dataPath directory, entries, none⟩, files) := by
  have answer : reader.entries.runOn time files =
      Program.run time (ExceptT.bindCont (fun node =>
          (pure (Run.ofNode (dataPath reader.directory) node) : FileTask Run))
        ((files.openAt (dataPath reader.directory)).mapError
          (FileTask.failure (dataPath reader.directory)))) files := rfl
  have read := Reading.ofBytes_encodeAll short
  rw [answer, here, publishes.openAt_data]
  simp only [mapError_ok, ExceptT.bindCont, Run.ofNode, read, Option.map_none]
  rfl

/-! ## Opening a writer for a published store -/

namespace Writer

variable {text : Bytes}

/-- No writer is opened where a manifest is, and nothing is changed. -/
theorem runOn_openAt_of_manifest (there : files.openAt (manifestPath directory) = .ok (.file text)) :
    (openAt directory).runOn time files =
      (.error (Refusal.toError (.published directory)), files) := by
  have looked : (FileTask.isThere (manifestPath directory)).runOn time files = (.ok true, files) := by
    have answer : (FileTask.isThere (manifestPath directory)).runOn time files =
        (.ok (Program.kindAt files (manifestPath directory)).isSome, files) := rfl
    rw [answer, kindAt_of_openAt there]
    rfl
  rw [openAt, FileTask.runOn_bind_of_ok looked]
  rfl

/-- Nor is anything changed where opening stops. -/
theorem throughout_openAt_of_manifest
    (there : files.openAt (manifestPath directory) = .ok (.file text)) :
    (openAt directory).Throughout time files (· = files) := by
  have looks : (FileTask.isThere (manifestPath directory)).Throughout time files (· = files) :=
    FileTask.Only.unchanged ((FileTask.only_look _).bind fun _ => FileTask.only_pure _)
  refine looks.bind fun found after looked => ?_
  cases looked
  rw [kindAt_of_openAt there]
  exact FileTask.throughout_throw rfl

end Writer

end Store

end TreeExport

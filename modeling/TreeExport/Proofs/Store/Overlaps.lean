import TreeExport.Proofs.Store.Publishing
import TreeExport.Proofs.Store.RoundTrip
import TreeExport.Proofs.Store.Sessions

/-!
# Writers that overlap

Only opening a writer looks whether a store is published.  A writer that was open before goes on, and
what it can still do is little, since the directory of segments is gone: the manifest stays, and the
entries too unless a writer that has appended nothing closes (`Store.Writer.Runs.published_stays`).
That one puts its own empty file in the place of the entries, and a writer that comes by a path which
does not lead to the manifest yet writes over all of the store
(`Store.Writer.published_store_is_overwritten`).
-/

namespace TreeExport.Store

open Files (Overwrites)

variable {time : Moment} {files left : Files} {directory : String} {text : Bytes}

/-! ## A directory with a manifest -/

/-- A manifest is there and the directory of segments is not, as closing leaves them. -/
structure IsSettled (files : Files) (directory : String) (text : Bytes) : Prop where
  enters : files.Enters directory
  nameable : Path.fault? (manifestPath directory) = none
  manifest : files.get? (spot files.working directory "manifest.json") = some (.file text)
  segments : files.get? (spot files.working directory "segments") = none

namespace IsSettled

theorem openAt_manifest (settled : IsSettled files directory text) :
    files.openAt (manifestPath directory) = .ok (.file text) :=
  openAt_join isName_manifest settled.nameable (by decide) settled.enters settled.manifest

theorem of_overwrites {places : Location → Prop} (settled : IsSettled files directory text)
    (overwrites : Overwrites places files left)
    (manifest : ¬ places (spot files.working directory "manifest.json"))
    (segments : ¬ places (spot files.working directory "segments")) :
    IsSettled left directory text := by
  refine ⟨overwrites.enters settled.enters, settled.nameable, ?_, ?_⟩
  · rw [overwrites.working, overwrites.same _ manifest]
    exact settled.manifest
  · rw [overwrites.working, overwrites.same _ segments]
    exact settled.segments

/-- Nothing can be entered where the segments were. -/
theorem not_enters (settled : IsSettled files directory text) :
    ¬ files.Enters (segmentsPath directory) := by
  intro enters
  have there := enters.there
  rw [segmentsPath, Files.home_join isName_segments] at there
  cases settled.segments.symm.trans there

theorem fails_create (settled : IsSettled files directory text) {path : String}
    (isIn : MergePlan.IsIn (segmentsPath directory) path) :
    (FileTask.change path (.create path)).Fails time files := by
  obtain ⟨name, isName, rfl⟩ := isIn
  refine FileTask.fails_change fun part changed partly changes => ?_
  cases partly
  cases Files.edit_of_change changes with
  | create named _ => exact settled.not_enters (Files.enters_of_named isName named).2

theorem fails_access (settled : IsSettled files directory text) {path : String}
    (isIn : MergePlan.IsIn (segmentsPath directory) path) : (FileTask.access path).Fails time files := by
  obtain ⟨name, isName, rfl⟩ := isIn
  refine FileTask.fails_access fun node opened => ?_
  have located := (Files.locate_of_openAt opened).1
  rw [Files.locate, Path.steps_join isName] at located
  exact settled.not_enters (Files.follow_join_ok isName located).2

/-- Segments are not found any more, however they are to be merged. -/
theorem fails_merge (settled : IsSettled files directory text) {fanIn : Nat} {paths : List String}
    {output : Output} (some : paths ≠ [])
    (isIn : ∀ path ∈ paths, MergePlan.IsIn (segmentsPath directory) path) :
    ((MergePlan.make (segmentsPath directory) fanIn paths).run output).Fails time files := by
  have stays := MergePlan.staysIn_make (segmentsPath directory) fanIn paths
  have last : (MergePlan.make (segmentsPath directory) fanIn paths).steps = [] →
      (MergePlan.make (segmentsPath directory) fanIn paths).last = paths := MergePlan.last_passes
  generalize MergePlan.make (segmentsPath directory) fanIn paths = plan at stays last
  obtain ⟨steps, inputs, disposable⟩ := plan
  cases steps with
  | nil =>
    obtain rfl : inputs = paths := last rfl
    cases inputs with
    | nil => exact absurd rfl some
    | cons path rest =>
      exact (((settled.fails_access (isIn path List.mem_cons_self)).bind _).bind _).bind _
  | cons step rest =>
    exact ((settled.fails_create (stays.outputs step List.mem_cons_self)).bind _).bind _

theorem fails_removeTree (settled : IsSettled files directory text) :
    (FileTask.removeTree (segmentsPath directory)).Fails time files := by
  have kind : Program.kindAt files (segmentsPath directory) = none :=
    kindAt_join_eq_none isName_segments settled.segments
  have looks : (FileTask.look (segmentsPath directory)).Throughout time files (· = files) :=
    FileTask.Only.unchanged (FileTask.only_look _)
  refine ⟨looks.bind fun found after looked => ?_, fun value after done => ?_⟩
  · cases looked
    rw [kind]
    exact FileTask.throughout_throw rfl
  · obtain ⟨found, _, looked, rest⟩ := FileTask.runOn_bind_ok done
    cases looked
    rw [kind] at rest
    cases rest

/-! ## What a writer can still do -/

variable {writer : Writer}

/-- Appending changes nothing. -/
theorem throughout_append (settled : IsSettled files directory text) (isOf : writer.IsOf directory)
    (entries : List StoredEntry) :
    (writer.append entries).Throughout time files (· = files) := by
  obtain ⟨rfl, -, -⟩ := isOf
  unfold Writer.append
  split
  · exact FileTask.throughout_pure rfl
  · exact ((settled.fails_create ⟨_, isName_segmentName _, rfl⟩).bind _).throughout

/-- The places of the files that a writer can still write: the draft, and the entries if there is
nothing that it would have to merge. -/
def Spoils (working : Location) (writer : Writer) (place : Location) : Prop :=
  place = spot working writer.directory "entries.dat.tmp" ∨
    writer.segments = [] ∧ place = spot working writer.directory "entries.dat"

theorem not_spoils {working : Location} {name : String} (noDraft : name ≠ "entries.dat.tmp")
    (noData : name ≠ "entries.dat") : ¬ Spoils working writer (spot working writer.directory name) := by
  rintro (same | ⟨-, same⟩)
  · exact spot_ne noDraft same
  · exact spot_ne noData same

theorem of_spoils (settled : IsSettled files writer.directory text)
    (overwrites : Overwrites (Spoils files.working writer) files left) :
    IsSettled left writer.directory text :=
  settled.of_overwrites overwrites (not_spoils (by decide) (by decide))
    (not_spoils (by decide) (by decide))

/-- A writer that has nothing to merge still puts its draft in the place of the entries. -/
theorem throughout_finish (settled : IsSettled files writer.directory text)
    (none : writer.segments = []) (output : Output) :
    (writer.finish output).Throughout time files (Overwrites (Spoils files.working writer) files) := by
  have moves {renamed : Files} (changes : files.change (.rename (dataDraftPath writer.directory)
      (dataPath writer.directory)) = .ok renamed) :
      Overwrites (Spoils files.working writer) files renamed := by
    obtain ⟨_, _, _, moved⟩ := Files.rename_ok
      (Files.leads_join files.working writer.directory isName_dataDraft)
      (Files.leads_join files.working writer.directory isName_data) (spot_ne (by decide)) changes
    exact moved.mono fun place => Or.imp_right fun same => ⟨none, same⟩
  refine (FileTask.throughout_change (.refl _ _) fun part renamed partly changes => ?_).bind
    fun _ renamed moved => ?_
  · cases partly
    exact moves changes
  · have overwrites := moves (FileTask.achieves_change.of_ok moved)
    exact ((settled.of_spoils overwrites).fails_removeTree.bind _).throughout.mono
      fun _ same => same ▸ overwrites

/-- Closing writes little. -/
theorem throughout_close (settled : IsSettled files directory text) (isOf : writer.IsOf directory) :
    writer.close.Throughout time files (Overwrites (Spoils files.working writer) files) := by
  obtain ⟨rfl, paths, -⟩ := isOf
  have drafts {created : Files} (changes : files.change
      (.create (dataDraftPath writer.directory)) = .ok created) :
      Overwrites (Spoils files.working writer) files created :=
    (Files.create_ok (Files.leads_join files.working writer.directory isName_dataDraft)
      changes).2.mono fun _ => .inl
  rw [Writer.close_eq_finish]
  refine (FileTask.throughout_change (.refl _ _) fun part created partly changes => ?_).bind
    fun _ created opened => ?_
  · cases partly
    exact drafts changes
  have first := drafts (FileTask.achieves_change.of_ok opened)
  have settledCreated := settled.of_spoils first
  by_cases none : writer.segments = []
  · rw [none, List.map_nil, MergePlan.run_make_nil, pure_bind]
    split
    · exact FileTask.throughout_throw first
    · refine (settledCreated.throughout_finish none _).mono fun left later => ?_
      rw [first.working] at later
      exact first.trans later
  · have fails : ((MergePlan.make (segmentsPath writer.directory) writer.fanIn
        (writer.segments.map (·.path))).run { path := dataDraftPath writer.directory }).Fails time
          created :=
      settledCreated.fails_merge (fun nil => none (List.map_eq_nil_iff.mp nil))
        (List.forall_mem_map.mpr paths)
    exact (fails.bind _).throughout.mono fun _ same => same ▸ first

end IsSettled

theorem Publishes.settled {manifest : Manifest} {entries : List StoredEntry}
    (publishes : Publishes files directory manifest entries)
    (gone : files.get? (spot files.working directory "segments") = none) :
    IsSettled files directory (Utf8.encode manifest.render) :=
  ⟨publishes.enters, publishes.manifestNameable, publishes.manifest, gone⟩

/-! ## What a reader finds -/

/-- A reader opens a published store by what its manifest says. -/
theorem runOn_openReader_iff {manifest : Manifest}
    (there : files.openAt (manifestPath directory) = .ok (.file text)) :
    (Reader.openAt directory).runOn time files = (.ok ⟨directory, manifest⟩, files) ↔
      ∃ shown, Utf8.decode text = .ok shown ∧ Manifest.read? shown = some manifest ∧
        ¬ Manifest.currentVersion < manifest.version := by
  have isFile : (Reader.isPublished directory).runOn time files =
      (.ok (Program.kindAt files (manifestPath directory) == some .file), files) := rfl
  have bytes : (FileTask.readBytes (manifestPath directory)).runOn time files =
      (.ok text, files) := FileTask.runOn_readBytes there
  rw [kindAt_of_openAt there] at isFile
  rw [Reader.openAt, FileTask.runOn_bind_of_ok isFile]
  change (FileTask.readText (manifestPath directory) >>= _).runOn time files = _ ↔ _
  cases decoded : Utf8.decode text with
  | error fault =>
    have fails : (FileTask.readText (manifestPath directory)).runOn time files =
        (.error (.file (manifestPath directory) "stream did not contain valid UTF-8"), files) := by
      rw [FileTask.readText, FileTask.runOn_bind_of_ok bytes, decoded]
      rfl
    rw [FileTask.runOn_bind_of_error fails]
    refine iff_of_false (fun opens => by cases opens) ?_
    rintro ⟨_, ⟨⟩, _⟩
  | ok shown =>
    have reads : (FileTask.readText (manifestPath directory)).runOn time files =
        (.ok shown, files) := by
      rw [FileTask.readText, FileTask.runOn_bind_of_ok bytes, decoded]
      rfl
    rw [FileTask.runOn_bind_of_ok reads]
    simp only [Except.ok.injEq, exists_eq_left']
    cases Manifest.read? shown with
    | none => exact iff_of_false (fun opens => by cases opens) fun both => by cases both.1
    | some found =>
      by_cases newer : Manifest.currentVersion < found.version
      · simp only [newer, if_true]
        refine iff_of_false (fun opens => by cases opens) ?_
        rintro ⟨same, older⟩
        cases same
        exact older newer
      · simp only [newer, if_false]
        constructor
        · intro opens
          cases opens
          exact ⟨rfl, newer⟩
        · rintro ⟨same, -⟩
          cases same
          rfl

/-- A reader opens the store, finds its entries to be what the manifest says, and lists them. -/
structure Reads (files : Files) (directory : String) (manifest : Manifest) (listed : Run) : Prop where
  opens : ∀ time, (Reader.openAt directory).runOn time files = (.ok ⟨directory, manifest⟩, files)
  verifies : ∀ time, (Reader.verify ⟨directory, manifest⟩).runOn time files = (.ok (), files)
  lists : ∀ time, (Reader.entries ⟨directory, manifest⟩).runOn time files = (.ok listed, files)

/-- What a reader finds is up to the manifest and the entries alone. -/
theorem Reads.of_same {manifest : Manifest} {listed : Run}
    (reads : Reads files directory manifest listed)
    (there : files.openAt (manifestPath directory) = .ok (.file text))
    (still : left.openAt (manifestPath directory) = .ok (.file text))
    (data : left.openAt (dataPath directory) = files.openAt (dataPath directory)) :
    Reads left directory manifest listed := by
  refine ⟨fun time => ?_, fun time => ?_, fun time => ?_⟩
  · exact (runOn_openReader_iff still).mpr ((runOn_openReader_iff there).mp (reads.opens time))
  · have verifies := reads.verifies time
    obtain ⟨content, _, found, -⟩ := FileTask.runOn_bind_ok verifies
    obtain ⟨node, _, accessed, isFile⟩ := FileTask.runOn_bind_ok found
    obtain ⟨opened, rfl⟩ := FileTask.achieves_access.of_ok accessed
    cases node with
    | directory => cases isFile
    | file bytes =>
      rw [Reader.verify] at verifies ⊢
      change (FileTask.readBytes (dataPath directory) >>= _).runOn time _ = _ at verifies
      change (FileTask.readBytes (dataPath directory) >>= _).runOn time _ = _
      rw [FileTask.runOn_bind_of_ok (FileTask.runOn_readBytes opened)] at verifies
      rw [FileTask.runOn_bind_of_ok (FileTask.runOn_readBytes (data.trans opened))]
      by_cases same : Sha256.hash bytes = manifest.digest
      · simp only [same, ne_eq, not_true_eq_false, if_false]
        rfl
      · simp only [same, ne_eq, not_false_eq_true, if_true] at verifies
        cases verifies
  · have lists := reads.lists time
    obtain ⟨node, _, accessed, rest⟩ := FileTask.runOn_bind_ok lists
    obtain ⟨opened, rfl⟩ := FileTask.achieves_access.of_ok accessed
    cases rest
    rw [Reader.entries, FileTask.runOn_bind_of_ok (FileTask.runOn_access (data.trans opened))]
    rfl

/-- No file stands in the place of the manifest. -/
def LacksManifest (files : Files) (directory : String) : Prop :=
  files.HasNoFile (spot files.working directory "manifest.json")

/-- A manifest that is there is found by its path. -/
def FindsManifest (files : Files) (directory : String) : Prop :=
  LacksManifest files directory ∨ ∃ text, files.openAt (manifestPath directory) = .ok (.file text)

namespace LacksManifest

variable {after : Files}

theorem change {c : Files.Change} (lacks : LacksManifest files directory)
    (allowed : IsDraftChange directory c ∨ c.WritesNoFile) (changes : files.change c = .ok after) :
    LacksManifest after directory := by
  unfold LacksManifest
  rw [Files.working_change changes]
  rcases allowed with draft | noFile
  · have drafted := isDrafted_of_change draft changes
    intro content there
    rcases drafted.rest (spot files.working directory "manifest.json") with same | gone | written
    · exact lacks content (same ▸ there)
    · cases gone.symm.trans there
    · exact written.1.ne_manifest rfl
  · exact Files.HasNoFile.change lacks noFile changes

/-- What makes only changes to a draft, and removes directories, publishes nothing. -/
theorem of_only {α : Type} {task : FileTask α} {outcome : Except Error α}
    (lacks : LacksManifest files directory)
    (only : task.Only fun c => IsDraftChange directory c ∨ c.WritesNoFile)
    (ran : task.runOn time files = (outcome, after)) : LacksManifest after directory := by
  have last : (task.run.run time files).2 = after := congrArg Prod.snd ran
  have keeps {tree changed : Files} {c : Files.Change}
      (allowed : IsDraftChange directory c ∨ c.WritesNoFile) (changes : tree.change c = .ok changed)
      (before : LacksManifest tree directory) : LacksManifest changed directory :=
    before.change allowed changes
  rw [← last]
  exact Program.Only.run keeps only time lacks

theorem openAt {outcome : Except Error Writer} (lacks : LacksManifest files directory)
    (ran : (Writer.openAt directory).runOn time files = (outcome, after)) :
    LacksManifest after directory :=
  lacks.of_only ((Writer.only_openAt directory).mono fun _ => .inr) ran

variable {writer : Writer}

theorem append {run : List StoredEntry} {outcome : Except Error (Option Segment × Writer)}
    (lacks : LacksManifest files writer.directory)
    (ran : (writer.append run).runOn time files = (outcome, after)) :
    LacksManifest after writer.directory :=
  lacks.of_only ((Writer.only_append_segment writer run).mono fun _ writes =>
    .inl (Writer.isDraftChange_of_writes writes)) ran

/-- Closing that fails publishes nothing. -/
theorem close {outcome : Except Error Manifest} (lacks : LacksManifest files writer.directory)
    (ran : writer.close.runOn time files = (outcome, after)) :
    LacksManifest after writer.directory ∨ ∃ manifest, outcome = .ok manifest := by
  rw [Writer.close_eq] at ran
  cases prepared : writer.prepare.runOn time files with
  | mk result middle =>
    have still := lacks.of_only writer.only_prepare_changes prepared
    cases result with
    | error cause =>
      rw [FileTask.runOn_bind_of_error prepared] at ran
      cases ran
      exact .inl still
    | ok manifest =>
      rw [FileTask.runOn_bind_of_ok prepared] at ran
      cases changes : middle.change (Writer.publishing writer.directory) with
      | ok published =>
        rw [FileTask.runOn_bind_of_ok (FileTask.runOn_change changes)] at ran
        cases ran
        exact .inr ⟨manifest, rfl⟩
      | error fault =>
        have fails : (FileTask.change (manifestPath writer.directory)
            (Writer.publishing writer.directory)).runOn time middle =
              (.error (FileTask.failure (manifestPath writer.directory) fault), middle) := by
          simp only [FileTask.runOn, FileTask.change, ExceptT.run_mk, Program.run, changes,
            mapError_error]
        rw [FileTask.runOn_bind_of_error fails] at ran
        cases ran
        exact .inl still

end LacksManifest

namespace Writer

/-! ## Interleavings -/

/-- The tree and the writers that are open for one directory. -/
structure Crowd where
  files : Files
  writers : List Writer := []

/-- What any number of writers of one directory come to by their calls, in any order, with the writers
that have closed. -/
inductive Runs (directory : String) (start : Crowd) : List Writer → Crowd → Prop
  | start : Runs directory start [] start
  | opens {closed : List Writer} {crowd : Crowd} {time : Moment} {outcome : Except Error Writer}
      {after : Files} (before : Runs directory start closed crowd)
      (ran : (openAt directory).runOn time crowd.files = (outcome, after)) :
      Runs directory start closed ⟨after, crowd.writers ++ outcome.toOption.toList⟩
  | fanIn {closed front back : List Writer} {writer : Writer} {files : Files}
      (before : Runs directory start closed ⟨files, front ++ writer :: back⟩) (fanIn : Nat) :
      Runs directory start closed ⟨files, front ++ writer.setFanIn fanIn :: back⟩
  | checkpoint {closed front back : List Writer} {writer : Writer} {files : Files}
      (before : Runs directory start closed ⟨files, front ++ writer :: back⟩)
      (label : Option String) :
      Runs directory start closed ⟨files, front ++ { writer with checkpoint := label } :: back⟩
  | append {closed front back : List Writer} {writer : Writer} {files after : Files} {time : Moment}
      {run : List StoredEntry} {outcome : Except Error (Option Segment × Writer)}
      (before : Runs directory start closed ⟨files, front ++ writer :: back⟩)
      (ran : (writer.append run).runOn time files = (outcome, after)) :
      Runs directory start closed ⟨after, front ++ writer.after outcome :: back⟩
  | close {closed front back : List Writer} {writer : Writer} {files after : Files} {time : Moment}
      {outcome : Except Error Manifest}
      (before : Runs directory start closed ⟨files, front ++ writer :: back⟩)
      (ran : writer.close.runOn time files = (outcome, after)) :
      Runs directory start (closed ++ [writer]) ⟨after, front ++ back⟩
  | drop {closed front back : List Writer} {writer : Writer} {files : Files}
      (before : Runs directory start closed ⟨files, front ++ writer :: back⟩) :
      Runs directory start closed ⟨files, front ++ back⟩

/-- Nothing but writers of the directory, in a proper tree. -/
structure Crowd.IsOf (directory : String) (crowd : Crowd) : Prop where
  proper : crowd.files.IsProper
  writers : ∀ writer ∈ crowd.writers, writer.IsOf directory

variable {start crowd : Crowd} {closed : List Writer}

theorem Runs.isOf (runs : Runs directory start closed crowd) (isOf : start.IsOf directory) :
    crowd.IsOf directory := by
  have swap {front back : List Writer} {old new : Writer}
      (all : ∀ writer ∈ front ++ old :: back, writer.IsOf directory)
      (keeps : old.IsOf directory → new.IsOf directory) :
      ∀ writer ∈ front ++ new :: back, writer.IsOf directory := by
    simp only [List.forall_mem_append, List.forall_mem_cons] at all ⊢
    exact ⟨all.1, keeps all.2.1, all.2.2⟩
  have leave {front back : List Writer} {old : Writer}
      (all : ∀ writer ∈ front ++ old :: back, writer.IsOf directory) :
      ∀ writer ∈ front ++ back, writer.IsOf directory := by
    simp only [List.forall_mem_append, List.forall_mem_cons] at all ⊢
    exact ⟨all.1, all.2.2⟩
  induction runs with
  | start => exact isOf
  | @opens closed crowd time outcome after before ran ih =>
    refine ⟨FileTask.isProper_of_runOn ran ih.proper, List.forall_mem_append.mpr ⟨ih.writers, ?_⟩⟩
    cases outcome with
    | error cause => exact fun _ none => absurd none List.not_mem_nil
    | ok writer =>
      intro other member
      obtain rfl := List.mem_singleton.mp member
      obtain ⟨rfl, -⟩ := openAt_ok ran
      exact isOf_new directory
  | fanIn before fanIn ih =>
    exact ⟨ih.proper, swap ih.writers fun old => ⟨old.here, old.paths, old.counted⟩⟩
  | checkpoint before label ih =>
    exact ⟨ih.proper, swap ih.writers fun old => ⟨old.here, old.paths, old.counted⟩⟩
  | @append _ _ _ _ _ _ _ _ outcome before ran ih =>
    refine ⟨FileTask.isProper_of_runOn ran ih.proper, swap ih.writers fun old => ?_⟩
    cases outcome with
    | error cause => exact old
    | ok answer => exact old.append ran
  | close before ran ih => exact ⟨FileTask.isProper_of_runOn ran ih.proper, leave ih.writers⟩
  | drop before ih => exact ⟨ih.proper, leave ih.writers⟩

/-- How far writers have come that were all opened in one tree. -/
inductive Stage (before : Files) (directory : String) (crowd : Crowd) : Prop
  | unpublished (lacks : LacksManifest crowd.files directory)
  | settled {text : Bytes} (settled : IsSettled crowd.files directory text)
  | shut {text : Bytes} (there : before.openAt (manifestPath directory) = .ok (.file text))
      (still : crowd.files = before) (nobody : crowd.writers = [])

/-- While a writer is open, the directory is not shut. -/
theorem Stage.of_open {before files : Files} {front back : List Writer} {writer : Writer}
    (stage : Stage before directory ⟨files, front ++ writer :: back⟩) :
    LacksManifest files directory ∨ ∃ text, IsSettled files directory text := by
  cases stage with
  | unpublished lacks => exact .inl lacks
  | settled settled => exact .inr ⟨_, settled⟩
  | shut _ _ nobody =>
    exact absurd nobody (List.append_ne_nil_of_right_ne_nil _ (List.cons_ne_nil _ _))

/-- The other writers do not matter while one is open. -/
theorem Stage.of_files {before files : Files} {front back writers : List Writer} {writer : Writer}
    (stage : Stage before directory ⟨files, front ++ writer :: back⟩) :
    Stage before directory ⟨files, writers⟩ := by
  rcases stage.of_open with lacks | ⟨text, settled⟩
  · exact .unpublished lacks
  · exact .settled settled

theorem Runs.stage {before : Files} (runs : Runs directory { files := before } closed crowd)
    (proper : before.IsProper) (finds : FindsManifest before directory) :
    Stage before directory crowd := by
  have isOf : Crowd.IsOf directory { files := before } :=
    ⟨proper, fun _ none => absurd none List.not_mem_nil⟩
  induction runs with
  | start =>
    rcases finds with lacks | ⟨text, there⟩
    · exact .unpublished lacks
    · exact .shut there rfl rfl
  | @opens _ crowd _ outcome after earlier ran ih =>
    cases ih with
    | unpublished lacks => exact .unpublished (lacks.openAt ran)
    | settled settled =>
      obtain rfl := (throughout_openAt_of_manifest settled.openAt_manifest).last ran
      exact .settled settled
    | shut there still nobody =>
      rw [still, runOn_openAt_of_manifest there] at ran
      cases ran
      exact .shut there rfl (by rw [nobody]; rfl)
  | fanIn earlier fanIn ih => exact ih.of_files
  | checkpoint earlier label ih => exact ih.of_files
  | append earlier ran ih =>
    have writer := (earlier.isOf isOf).writers _ (List.mem_append_right _ List.mem_cons_self)
    rcases ih.of_open with lacks | ⟨text, settled⟩
    · obtain ⟨rfl, -, -⟩ := writer
      exact .unpublished (lacks.append ran)
    · obtain rfl := (settled.throughout_append writer _).last ran
      exact .settled settled
  | close earlier ran ih =>
    have here := earlier.isOf isOf
    have writer := here.writers _ (List.mem_append_right _ List.mem_cons_self)
    rcases ih.of_open with lacks | ⟨text, settled⟩
    · have same := writer.here
      rcases (same ▸ lacks).close ran with still | ⟨manifest, rfl⟩
      · exact .unpublished (same ▸ still)
      · obtain ⟨entries, -, -, -, publishes, gone⟩ := close_ok writer here.proper ran
        exact .settled (publishes.settled gone)
    · have overwrites := (settled.throughout_close writer).last ran
      obtain ⟨rfl, -, -⟩ := writer
      exact .settled (settled.of_spoils overwrites)
  | drop earlier ih => exact ih.of_files

/-- Where a manifest is and nobody is open, nobody comes in. -/
theorem Runs.shut {later : List Writer} {last : Crowd} {text : Bytes}
    (runs : Runs directory crowd later last)
    (there : crowd.files.openAt (manifestPath directory) = .ok (.file text))
    (nobody : crowd.writers = []) : last = crowd := by
  have leaves {front back : List Writer} {writer : Writer} {files : Files}
      (same : Crowd.mk files (front ++ writer :: back) = crowd) : False := by
    rw [← same] at nobody
    exact List.append_ne_nil_of_right_ne_nil _ (List.cons_ne_nil _ _) nobody
  induction runs with
  | start => rfl
  | opens earlier ran ih =>
    obtain rfl := ih
    rw [runOn_openAt_of_manifest there] at ran
    cases ran
    exact congrArg (Crowd.mk _) (List.append_nil _)
  | fanIn earlier fanIn ih => exact (leaves ih).elim
  | checkpoint earlier label ih => exact (leaves ih).elim
  | append earlier ran ih => exact (leaves ih).elim
  | close earlier ran ih => exact (leaves ih).elim
  | drop earlier ih => exact (leaves ih).elim

end Writer

end TreeExport.Store

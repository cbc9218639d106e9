import TreeExport.Proofs.Files.Making
import TreeExport.Proofs.Files.Removing
import TreeExport.Proofs.Store.Opening

/-!
# Stores that are not published

What writers that have stopped leave in a directory is a draft of a store (`Store.IsDraft`): there is
no manifest, and in the directory of segments there are only files.  Neither appending nor anything
that closing does before it publishes makes more of it, and a writer can always be opened for it
(`Store.Writer.completes_openAt`).
-/

namespace TreeExport

open Files (home)

namespace Store

variable {time : Moment} {files left : Files} {directory : String}

/-- The directory is there as a writer takes it over: with a directory of segments that is empty, and
without a manifest. -/
structure IsFresh (files : Files) (directory : String) : Prop where
  enters : files.Enters directory
  segments : files.get? (spot files.working directory "segments") = some .directory
  empty : ∀ {place : Location}, spot files.working directory "segments" <+: place →
    place ≠ spot files.working directory "segments" → files.get? place = none
  unpublished : files.get? (spot files.working directory "manifest.json") = none

/-- The tree lacks nothing but directories for the directory of a store to be there, as a writer takes
it over.  The working directory does not lie among the segments. -/
structure HasRoom (files : Files) (directory : String) : Prop where
  proper : files.IsProper
  keyed : files.IsKeyed
  nameable : Path.fault? (segmentsPath directory) = none
  free : files.IsFree (spot files.working directory "segments")
  lacks : ∃ whole, files.Grows whole ∧ IsFresh whole directory

/-- The directory of a store that is not published, with whatever files writers have left in it. -/
structure IsDraft (files : Files) (directory : String) : Prop where
  proper : files.IsProper
  keyed : files.IsKeyed
  nameable : Path.fault? (segmentsPath directory) = none
  free : files.IsFree (spot files.working directory "segments")
  enters : files.Enters directory
  unpublished : files.get? (spot files.working directory "manifest.json") = none
  segments : files.HoldsFiles directory "segments" ∨
    ∀ place, spot files.working directory "segments" <+: place → files.get? place = none

/-- Nothing but a draft of a store is there, or there is room for it. -/
def IsUnpublished (files : Files) (directory : String) : Prop :=
  IsDraft files directory ∨ HasRoom files directory

/-! ## Drafts and room -/

/-- Where the directory can be entered, the store in it is a draft. -/
theorem HasRoom.isDraft (room : HasRoom files directory) (enters : files.Enters directory) :
    IsDraft files directory := by
  obtain ⟨whole, grows, fresh⟩ := room.lacks
  have empty := @fresh.empty
  have unpublished := fresh.unpublished
  have segments := fresh.segments
  rw [grows.working] at empty unpublished segments
  refine ⟨room.proper, room.keyed, room.nameable, room.free, enters, grows.nothing unpublished, ?_⟩
  rcases grows.directory segments with none | there
  · refine .inr fun place within => ?_
    by_cases same : place = spot files.working directory "segments"
    · rw [same, none]
    · exact grows.nothing (empty within same)
  · refine .inl ⟨there, fun {place node} within differs found => ?_⟩
    rw [grows.nothing (empty within differs)] at found
    cases found

theorem IsFresh.isDraft (fresh : IsFresh files directory) (room : HasRoom files directory) :
    IsDraft files directory :=
  room.isDraft fresh.enters

theorem IsFresh.isReady (fresh : IsFresh files directory) (draft : IsDraft files directory) :
    IsReady files directory :=
  ⟨fresh.segments, draft.nameable⟩

/-- A draft whose directory of segments is removed leaves room. -/
theorem IsDraft.hasRoom (draft : IsDraft files directory)
    (empties : Files.Empties (spot files.working directory "segments" <+: ·) files left)
    (proper : left.IsProper) (keyed : left.IsKeyed) : HasRoom left directory := by
  have gone : left.get? (spot files.working directory "segments") = none :=
    empties.nothing _ (List.prefix_refl _)
  have free : left.IsFree (spot files.working directory "segments") := by
    rw [Files.IsFree, empties.working]
    exact draft.free
  have here : spot left.working directory "segments" = spot files.working directory "segments" := by
    rw [empties.working]
  refine ⟨proper, keyed, draft.nameable, here ▸ free,
    left.put (spot files.working directory "segments") .directory, Files.grows_put gone, ?_⟩
  have directories : ∀ place, files.get? place = some .directory →
      (left.put (spot files.working directory "segments") .directory).get? place =
        some .directory := by
    intro place there
    by_cases same : place = spot files.working directory "segments"
    · rw [same]
      exact Files.get?_put_self free _
    · rw [Files.get?_put_of_ne same, empties.same]
      · exact there
      · intro within
        rcases draft.segments with holds | none
        · obtain ⟨file, rfl, removable⟩ := holds.plain within same there
          obtain ⟨content, isFile⟩ := removable.there
          rw [Files.home_join isName_segments, there] at isFile
          cases isFile
        · rw [none place within] at there
          cases there
  have working : (left.put (spot files.working directory "segments") .directory).working =
      files.working := empties.working
  refine ⟨⟨?_, ?_⟩, ?_, fun {place} within differs => ?_, ?_⟩
  · rw [working]
    exact Files.walk_of_directories directories draft.enters.walked
  · rw [working]
    exact directories _ draft.enters.there
  · rw [working]
    exact Files.get?_put_self free _
  · rw [working] at within differs
    rw [Files.get?_put_of_ne differs]
    exact empties.nothing place within
  · rw [working, Files.get?_put_of_ne (spot_ne (by decide)), empties.same]
    · exact draft.unpublished
    · exact spot_not_below (by decide)

/-! ## What leaves a draft a draft -/

/-- The place of a file that a writer may write. -/
inductive IsDraftPlace (files : Files) (directory : String) : Location → Prop
  | beside {name : String} (noManifest : name ≠ "manifest.json") (noSegments : name ≠ "segments") :
      IsDraftPlace files directory (spot files.working directory name)
  | inside {name : String}
      (there : files.get? (spot files.working directory "segments") = some .directory)
      (isName : Path.IsName name) (noFault : Path.fault? (Path.join (segmentsPath directory) name) = none)
      (short : name.utf8ByteSize ≤ Path.maxNameBytes) :
      IsDraftPlace files directory (spot files.working directory "segments" ++ [name])

/-- Nothing has been done but to remove files and to write those that a writer may write. -/
structure IsDrafted (before after : Files) (directory : String) : Prop where
  working : after.working = before.working
  directories : ∀ place, before.get? place = some .directory → after.get? place = some .directory
  rest : ∀ place, after.get? place = before.get? place ∨ after.get? place = none ∨
    IsDraftPlace before directory place ∧ ∃ content, after.get? place = some (.file content)

theorem IsDraftPlace.ne_manifest {place : Location} (isPlace : IsDraftPlace files directory place) :
    place ≠ spot files.working directory "manifest.json" := by
  cases isPlace with
  | beside noManifest noSegments => exact spot_ne noManifest
  | inside =>
    intro same
    have lengths := congrArg List.length same
    simp [spot] at lengths

/-- Of the files that a writer may write, those inside are in the directory of segments. -/
theorem IsDraftPlace.inside_of_prefix {place : Location} (isPlace : IsDraftPlace files directory place)
    (within : spot files.working directory "segments" <+: place) :
    files.get? (spot files.working directory "segments") = some .directory ∧
      ∃ name, place = spot files.working directory "segments" ++ [name] ∧ Path.IsName name ∧
        Path.fault? (Path.join (segmentsPath directory) name) = none ∧
        name.utf8ByteSize ≤ Path.maxNameBytes := by
  cases isPlace with
  | beside noManifest noSegments => exact absurd within (spot_not_below (Ne.symm noSegments))
  | inside there isName noFault short => exact ⟨there, _, rfl, isName, noFault, short⟩

theorem IsDraft.of_drafted (draft : IsDraft files directory) (drafted : IsDrafted files left directory)
    (proper : left.IsProper) (keyed : left.IsKeyed) : IsDraft left directory := by
  have inside : home files.working (segmentsPath directory) =
      spot files.working directory "segments" := Files.home_join isName_segments
  obtain ⟨working, directories, rest⟩ := drafted
  refine ⟨proper, keyed, draft.nameable, ?_, ⟨?_, ?_⟩, ?_, ?_⟩
  · rw [Files.IsFree, working]
    exact draft.free
  · rw [working]
    exact Files.walk_of_directories directories draft.enters.walked
  · rw [working]
    exact directories _ draft.enters.there
  · rw [working]
    rcases rest (spot files.working directory "manifest.json") with same | none | ⟨isPlace, -⟩
    · rw [same, draft.unpublished]
    · exact none
    · exact absurd rfl isPlace.ne_manifest
  · rcases draft.segments with holds | none
    · refine .inl ⟨?_, fun {place node} within differs found => ?_⟩
      · rw [working]
        exact directories _ holds.there
      · rw [working] at within differs
        have file : ∃ name, place = spot files.working directory "segments" ++ [name] ∧
            Path.IsName name ∧ Path.fault? (Path.join (segmentsPath directory) name) = none ∧
            name.utf8ByteSize ≤ Path.maxNameBytes ∧ ∃ content, node = .file content := by
          rcases rest place with same | none | ⟨isPlace, content, written⟩
          · rw [same] at found
            obtain ⟨name, rfl, removable⟩ := holds.plain within differs found
            obtain ⟨isName, noFault, short, content, isFile⟩ := removable
            rw [Files.home_join isName_segments, found] at isFile
            exact ⟨name, rfl, isName, noFault, short, content, Option.some.inj isFile⟩
          · rw [none] at found
            cases found
          · obtain ⟨-, name, rfl, isName, noFault, short⟩ := isPlace.inside_of_prefix within
            rw [written] at found
            exact ⟨name, rfl, isName, noFault, short, content, (Option.some.inj found).symm⟩
        obtain ⟨name, rfl, isName, noFault, short, content, rfl⟩ := file
        refine ⟨name, by rw [working]; rfl, isName, noFault, short, content, ?_⟩
        rw [Files.home_join isName_segments, working]
        exact found
    · refine .inr fun place within => ?_
      rw [working] at within
      rcases rest place with same | gone | ⟨isPlace, -⟩
      · rw [same, none place within]
      · exact gone
      · have there := (isPlace.inside_of_prefix within).1
        rw [none _ (List.prefix_refl _)] at there
        cases there

/-- A draft that has lost files is one still. -/
theorem IsDraft.of_loses (draft : IsDraft files directory) {places : Location → Prop}
    (loses : Files.Loses places files left) (proper : left.IsProper) (keyed : left.IsKeyed) :
    IsDraft left directory :=
  draft.of_drafted ⟨loses.working, loses.directories, fun place => (loses.rest place).imp_right .inl⟩
    proper keyed

/-! ## Changes to a draft -/

/-- The path of a file that a writer may write. -/
def IsDraftPath (directory path : String) : Prop :=
  (∃ name, Path.IsName name ∧ name ≠ "manifest.json" ∧ name ≠ "segments" ∧
    path = Path.join directory name) ∨
  ∃ name, Path.IsName name ∧ path = Path.join (segmentsPath directory) name

/-- The changes of a writer before it publishes, but for those that remove directories. -/
def IsDraftChange (directory : String) : Files.Change → Prop
  | .create path => IsDraftPath directory path
  | .extend path _ => IsDraftPath directory path
  | .rename _ target => IsDraftPath directory target
  | .removeFile _ => True
  | _ => False

theorem IsDraftPath.create {path : String} (isPath : IsDraftPath directory path) :
    IsDraftChange directory (.create path) :=
  isPath

theorem IsDraftPath.extend {path : String} (isPath : IsDraftPath directory path) (bytes : Bytes) :
    IsDraftChange directory (.extend path bytes) :=
  isPath

theorem IsDraftPath.rename {target : String} (isPath : IsDraftPath directory target)
    (path : String) : IsDraftChange directory (.rename path target) :=
  isPath

theorem IsDraftPath.toName {path : String} (isPath : IsDraftPath directory path) :
    Path.stepsToName path = Path.steps path := by
  rcases isPath with ⟨name, isName, -, -, rfl⟩ | ⟨name, isName, rfl⟩
  · exact Path.stepsToName_eq_steps (Path.getLast?_join isName)
  · exact Path.stepsToName_eq_steps (Path.getLast?_join isName)

/-- Where the path of a file that a writer may write leads anywhere, the directory can be entered and
the place is that of such a file. -/
theorem IsDraftPath.place {path : String} (isPath : IsDraftPath directory path) {place : Location}
    (located : files.locate path = .ok place) :
    IsDraftPlace files directory place ∧ files.Enters directory := by
  rcases isPath with ⟨name, isName, noManifest, noSegments, rfl⟩ | ⟨name, isName, rfl⟩
  · obtain rfl := (Files.leads_join files.working directory isName).located rfl located
    rw [Files.locate, Path.steps_join isName] at located
    exact ⟨.beside noManifest noSegments, (Files.follow_join_ok isName located).2⟩
  · obtain rfl := (Files.leads_join files.working (segmentsPath directory) isName).located rfl located
    rw [Files.locate, Path.steps_join isName] at located
    obtain ⟨noFault, enters⟩ := Files.follow_join_ok isName located
    have short := Files.short_of_follow_join isName located
    have there := enters.there
    rw [segmentsPath, Files.home_join isName_segments] at there
    have place : home files.working (segmentsPath directory) ++ [name] =
        spot files.working directory "segments" ++ [name] := by
      rw [segmentsPath, Files.home_join isName_segments]
      rfl
    exact ⟨place ▸ .inside there isName noFault short, enters.around isName_segments⟩

/-- What names a file that a writer may write leads to it. -/
theorem IsDraftPath.locate_of_named {path : String} (isPath : IsDraftPath directory path)
    {dots : Fault} {place : Location} (named : files.named path dots = .ok place) :
    files.locate path = .ok place := by
  simp only [Files.named, isPath.toName, bind, Except.bind] at named
  split at named
  · cases named
  · next found followed =>
    split at named
    · cases named
      exact followed
    · cases named

theorem IsDrafted.refl (files : Files) (directory : String) : IsDrafted files files directory :=
  ⟨rfl, fun _ there => there, fun _ => .inl rfl⟩

/-- A file that is put in a place of its own. -/
theorem IsDrafted.put {tree : Files} (drafted : IsDrafted files tree directory) {place : Location}
    (isPlace : IsDraftPlace files directory place)
    (noDirectory : tree.get? place ≠ some .directory) (content : Bytes) :
    IsDrafted files (tree.put place (.file content)) directory := by
  refine ⟨drafted.working, fun other there => ?_, fun other => ?_⟩
  · have kept := drafted.directories other there
    rw [Files.get?_put_of_ne (by rintro rfl; exact noDirectory kept)]
    exact kept
  · by_cases same : other = place
    · rw [same, Files.get?_put_self (Files.isFree_of_get?_ne noDirectory)]
      exact .inr (.inr ⟨isPlace, content, rfl⟩)
    · rw [Files.get?_put_of_ne same]
      exact drafted.rest other

theorem isDrafted_erase {place : Location} {content : Bytes}
    (there : files.get? place = some (.file content)) :
    IsDrafted files (files.erase place) directory := by
  refine ⟨rfl, (Files.overwrites_erase there).directories, fun other => ?_⟩
  by_cases same : other = place
  · rw [same, Files.get?_erase_self (Files.isFree_of_file there)]
    exact .inr (.inl rfl)
  · rw [Files.get?_erase_of_ne same]
    exact .inl rfl

theorem isDrafted_of_change {c : Files.Change} (allowed : IsDraftChange directory c)
    (changes : files.change c = .ok left) : IsDrafted files left directory := by
  cases Files.edit_of_change changes with
  | create named noDirectory =>
    have isPath : IsDraftPath directory _ := allowed
    exact (IsDrafted.refl files directory).put (isPath.place (isPath.locate_of_named named)).1
      noDirectory _
  | extend located there =>
    have isPath : IsDraftPath directory _ := allowed
    exact (IsDrafted.refl files directory).put (isPath.place located).1 (by rw [there]; simp) _
  | @rename _ _ place aim _ named there aimed noDirectory =>
    have isPath : IsDraftPath directory _ := allowed
    refine (isDrafted_erase there).put (isPath.place (isPath.locate_of_named aimed)).1 ?_ _
    by_cases same : aim = place
    · rw [same, Files.get?_erase_self (Files.isFree_of_file there)]
      simp
    · rw [Files.get?_erase_of_ne same]
      exact noDirectory
  | removeFile named there => exact isDrafted_erase there
  | removeDirectory => exact absurd allowed id
  | makeDirectory => exact absurd allowed id

theorem IsDraftChange.part {part c : Files.Change} (allowed : IsDraftChange directory c)
    (partly : part.PartOf c) : IsDraftChange directory part := by
  cases partly <;> exact allowed

theorem IsDraft.of_change (draft : IsDraft files directory) {c : Files.Change}
    (allowed : IsDraftChange directory c) (changes : files.change c = .ok left) :
    IsDraft left directory :=
  draft.of_drafted (isDrafted_of_change allowed changes) (draft.proper.change changes)
    (draft.keyed.change changes)

/-- A draft stays one throughout a task that makes only changes to drafts. -/
theorem IsDraft.throughout (draft : IsDraft files directory) {α : Type} {task : FileTask α}
    (only : task.Only (IsDraftChange directory)) :
    task.Throughout time files (IsDraft · directory) :=
  only.throughout (fun allowed partly changes draft => draft.of_change (allowed.part partly) changes)
    draft

/-! ## Opening a writer -/

theorem kindAt_join_eq_none {name : String} (isName : Path.IsName name)
    (nothing : files.get? (home files.working directory ++ [name]) = none) :
    Program.kindAt files (Path.join directory name) = none := by
  simp only [Program.kindAt, Files.reach, bind, Except.bind]
  cases located : files.locate (Path.join directory name) with
  | error fault => rfl
  | ok place =>
    obtain rfl := (Files.leads_join files.working directory isName).located rfl located
    simp only [nothing, pure, Except.pure, Except.toOption, Option.join_some, Option.map_none]

theorem enters_of_kindAt {kind : Kind}
    (there : Program.kindAt files (segmentsPath directory) = some kind) :
    files.Enters directory := by
  simp only [Program.kindAt, Files.reach, bind, Except.bind, pure, Except.pure] at there
  cases located : files.locate (segmentsPath directory) with
  | error fault =>
    rw [located] at there
    cases there
  | ok place =>
    rw [Files.locate, segmentsPath, Path.steps_join isName_segments] at located
    exact (Files.follow_join_ok isName_segments located).2

theorem IsUnpublished.nothing (unpublished : IsUnpublished files directory) :
    files.get? (spot files.working directory "manifest.json") = none := by
  rcases unpublished with draft | room
  · exact draft.unpublished
  · obtain ⟨whole, grows, fresh⟩ := room.lacks
    exact grows.nothing (grows.working ▸ fresh.unpublished)

/-- Where there is room for a store, the directory of segments is made. -/
theorem HasRoom.completes_makeDirectories (room : HasRoom files directory) :
    (FileTask.makeDirectories (segmentsPath directory)).Completes time files
      (IsUnpublished · directory) fun _ after =>
        IsFresh after directory ∧ HasRoom after directory := by
  obtain ⟨whole, grows, fresh⟩ := room.lacks
  have made : (FileTask.makeDirectories (segmentsPath directory)).Completes time files _ _ :=
    FileTask.completes_makeDirectories isName_segments room.nameable (by decide) grows fresh.enters
      fresh.segments
  have still {left : Files} (grown : left.Grows whole) (proper : left.IsProper)
      (keyed : left.IsKeyed) : HasRoom left directory := by
    refine ⟨proper, keyed, room.nameable, ?_, whole, grown, fresh⟩
    rw [Files.IsFree, grown.working.symm.trans grows.working]
    exact room.free
  refine (((made.keeping (fun changes proper => Files.IsProper.change proper changes)
    room.proper).keeping (fun changes keyed => Files.IsKeyed.change keyed changes)
    room.keyed).holding ?_).mono ?_
  · rintro left ⟨⟨grown, proper⟩, keyed⟩
    exact .inr (still grown proper keyed)
  · rintro _ after ⟨⟨⟨grown, enters, there⟩, proper⟩, keyed⟩
    have working : after.working = files.working := grown.working.symm.trans grows.working
    have empty := @fresh.empty
    have unpublished := fresh.unpublished
    rw [grown.working] at empty unpublished
    refine ⟨⟨enters, working ▸ there, fun {place} within differs => ?_, ?_⟩,
      still grown proper keyed⟩
    · exact grown.nothing (empty within differs)
    · exact grown.nothing unpublished

/-- Clearing what writers have left behind makes room. -/
theorem IsDraft.completes_removeTree (draft : IsDraft files directory)
    (holds : files.HoldsFiles directory "segments") :
    (FileTask.removeTree (segmentsPath directory)).Completes time files (IsUnpublished · directory)
      fun _ after => HasRoom after directory := by
  have removed : (FileTask.removeTree (segmentsPath directory)).Completes time files _ _ :=
    FileTask.completes_removeTree isName_segments draft.nameable (by decide) draft.enters draft.keyed
      draft.free holds
  refine (((removed.keeping (fun changes proper => Files.IsProper.change proper changes)
    draft.proper).keeping (fun changes keyed => Files.IsKeyed.change keyed changes)
    draft.keyed).holding ?_).mono ?_
  · rintro left ⟨⟨loses | empties, proper⟩, keyed⟩
    · exact .inl (draft.of_loses loses proper keyed)
    · exact .inr (draft.hasRoom empties proper keyed)
  · rintro _ after ⟨⟨empties, proper⟩, keyed⟩
    exact draft.hasRoom empties proper keyed

/-- A writer can be opened for a directory where no store is published, whatever is there, and takes it
over fresh.  Wherever that breaks off, there is no store still. -/
theorem Writer.completes_openAt (unpublished : IsUnpublished files directory) :
    (openAt directory).Completes time files (IsUnpublished · directory) fun writer after =>
      writer = { directory := directory } ∧ IsFresh after directory ∧ IsDraft after directory := by
  have made {tree : Files} (room : HasRoom tree directory) : (do
      FileTask.makeDirectories (segmentsPath directory)
      pure { directory := directory } : FileTask Writer).Completes time tree
        (IsUnpublished · directory) fun writer after =>
          writer = { directory := directory } ∧ IsFresh after directory ∧ IsDraft after directory := by
    refine room.completes_makeDirectories.bind ?_
    rintro _ after ⟨fresh, roomAfter⟩
    exact FileTask.completes_pure (.inr roomAfter) ⟨rfl, fresh, fresh.isDraft roomAfter⟩
  have looks {path : String} : (FileTask.isThere path).Completes time files (IsUnpublished · directory)
      fun answer after => answer = (Program.kindAt files path).isSome ∧ files = after := by
    refine (FileTask.completes_look unpublished).bind ?_
    rintro _ _ ⟨rfl, rfl⟩
    exact FileTask.completes_pure unpublished ⟨rfl, rfl⟩
  have noManifest : Program.kindAt files (manifestPath directory) = none :=
    kindAt_join_eq_none isName_manifest unpublished.nothing
  refine looks.bind ?_
  rintro _ _ ⟨rfl, rfl⟩
  rw [noManifest]
  refine looks.bind ?_
  rintro _ _ ⟨rfl, rfl⟩
  cases kind : Program.kindAt files (segmentsPath directory) with
  | none =>
    refine made ?_
    rcases unpublished with draft | room
    · rcases draft.segments with holds | none
      · rw [kindAt_segments ⟨holds.there, draft.nameable⟩ draft.enters] at kind
        cases kind
      · exact draft.hasRoom ⟨.refl _ _, none⟩ draft.proper draft.keyed
    · exact room
  | some found =>
    have enters := enters_of_kindAt kind
    have draft : IsDraft files directory := by
      rcases unpublished with draft | room
      · exact draft
      · exact room.isDraft enters
    rcases draft.segments with holds | none
    · exact (draft.completes_removeTree holds).bind fun _ _ room => made room
    · rw [segmentsPath, kindAt_join_eq_none isName_segments (none _ (List.prefix_refl _))] at kind
      cases kind

end Store

end TreeExport

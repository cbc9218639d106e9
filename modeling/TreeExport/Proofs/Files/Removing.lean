import TreeExport.Proofs.Files.Breaks

/-!
# Removing directories

A directory of files is removed after the files in it.  That succeeds, and wherever it breaks off just
some of the files are gone (`FileTask.completes_removeTree`).
-/

namespace TreeExport

/-! ## Removing files -/

namespace Files

/-- Some files at some places are gone. -/
structure Loses (places : Location → Prop) (before after : Files) : Prop
    extends Overwrites places before after where
  rest : ∀ place, after.get? place = before.get? place ∨ after.get? place = none

theorem Loses.refl (places : Location → Prop) (files : Files) : Loses places files files :=
  ⟨.refl places files, fun _ => .inl rfl⟩

theorem Loses.trans {places : Location → Prop} {first second third : Files}
    (early : Loses places first second) (late : Loses places second third) :
    Loses places first third := by
  refine ⟨early.toOverwrites.trans late.toOverwrites, fun place => ?_⟩
  rcases late.rest place with same | gone
  · rw [same]
    exact early.rest place
  · exact .inr gone

theorem Loses.mono {places more : Location → Prop} {before after : Files}
    (loses : Loses places before after) (within : ∀ place, places place → more place) :
    Loses more before after :=
  ⟨loses.toOverwrites.mono within, loses.rest⟩

/-- A file of a name in a directory that can be removed. -/
structure Removable (files : Files) (directory name : String) : Prop where
  isName : Path.IsName name
  noFault : Path.fault? (Path.join directory name) = none
  short : name.utf8ByteSize ≤ Path.maxNameBytes
  there : ∃ content, files.get? (home files.working directory ++ [name]) = some (.file content)

variable {files : Files} {directory name : String}

theorem Removable.removeFile (removable : files.Removable directory name)
    (enters : files.Enters directory) :
    ∃ after, files.change (.removeFile (Path.join directory name)) = .ok after ∧
      after.get? (home files.working directory ++ [name]) = none ∧
      Loses (· = home files.working directory ++ [name]) files after := by
  obtain ⟨isName, noFault, short, content, there⟩ := removable
  have named := named_join isName noFault enters short .isDirectory
  have noSlash : Path.endsWithSlash (Path.join directory name) = false := by
    rw [Path.endsWithSlash, beq_eq_false_iff_ne]
    exact Path.getLast?_join isName
  have free := isFree_of_file there
  refine ⟨files.erase (home files.working directory ++ [name]), ?_, get?_erase_self free,
    overwrites_erase there, fun place => ?_⟩
  · simp only [change, Files.removeFile, fileAt, named, there, noSlash, bind, Except.bind, pure,
      Except.pure, Bool.false_eq_true, if_false]
  · by_cases same : place = home files.working directory ++ [name]
    · rw [same]
      exact .inr (get?_erase_self free)
    · exact .inl (get?_erase_of_ne same)

end Files

namespace FileTask

variable {time : Moment} {files : Files} {directory root : String} {held : Files → Prop}

theorem completes_removeListed {names : List String} (distinct : names.Nodup)
    (enters : files.Enters directory) (removable : ∀ name ∈ names, files.Removable directory name) :
    (removeListed root (names.map fun name => (Path.join directory name, .file))).Completes time files
      (Files.Loses (· ∈ names.map fun name => Files.home files.working directory ++ [name]) files)
      fun _ after =>
        Files.Loses (· ∈ names.map fun name => Files.home files.working directory ++ [name]) files
          after ∧
        ∀ name ∈ names, after.get? (Files.home files.working directory ++ [name]) = none := by
  induction names generalizing files with
  | nil => exact completes_pure (.refl _ _) ⟨.refl _ _, fun _ none => absurd none List.not_mem_nil⟩
  | cons name rest ih =>
    obtain ⟨later, distinctRest⟩ := List.nodup_cons.mp distinct
    obtain ⟨after, changes, gone, loses⟩ :=
      (removable name List.mem_cons_self).removeFile enters
    have one : Files.Loses (· ∈ (name :: rest).map fun name =>
        Files.home files.working directory ++ [name]) files after :=
      loses.mono fun place same => List.mem_cons.mpr (.inl same)
    have removableRest : ∀ other ∈ rest, after.Removable directory other := by
      intro other member
      obtain ⟨isName, noFault, short, content, there⟩ :=
        removable other (List.mem_cons_of_mem _ member)
      refine ⟨isName, noFault, short, content, ?_⟩
      rw [loses.working, loses.same]
      · exact there
      · intro same
        obtain rfl : other = name := by simpa using same
        exact later member
    refine (completes_change (.refl _ _) changes (fun part partly => by cases partly; rfl)
      one).bind ?_
    rintro _ after rfl
    have all := ih distinctRest (loses.enters enters) removableRest
    rw [loses.working] at all
    have grown {last : Files} (late : Files.Loses (· ∈ rest.map fun name =>
        Files.home files.working directory ++ [name]) after last) :
        Files.Loses (· ∈ (name :: rest).map fun name =>
          Files.home files.working directory ++ [name]) files last :=
      one.trans (late.mono fun place => List.mem_cons_of_mem _)
    refine ⟨all.throughout.mono fun left => grown, ?_⟩
    obtain ⟨value, last, ran, lost, none⟩ := all.done
    refine ⟨value, last, ran, grown lost, fun other member => ?_⟩
    rcases List.mem_cons.mp member with rfl | inRest
    · rcases lost.rest (Files.home files.working directory ++ [other]) with same | nothing
      · rw [same, gone]
      · exact nothing
    · exact none other inRest

end FileTask

/-! ## Removing a directory of files -/

namespace Files

/-- Nothing is left at some places, and all else is as it was. -/
structure Empties (places : Location → Prop) (before after : Files) : Prop
    extends AgreesOff places before after where
  nothing : ∀ place, places place → after.get? place = none

/-- A directory of a name in which there are only files that can be removed. -/
structure HoldsFiles (files : Files) (directory name : String) : Prop where
  there : files.get? (home files.working directory ++ [name]) = some .directory
  plain : ∀ {place : Location} {node : Node}, home files.working directory ++ [name] <+: place →
    place ≠ home files.working directory ++ [name] → files.get? place = some node →
      ∃ file, place = home files.working directory ++ [name] ++ [file] ∧
        files.Removable (Path.join directory name) file

variable {files : Files} {directory name : String}

theorem IsFree.below {place other : Location} (free : files.IsFree place) (within : place <+: other) :
    files.IsFree other := by
  rw [IsFree, Bool.eq_false_iff] at free ⊢
  intro around
  exact free (List.isPrefixOf_iff_prefix.mpr (within.trans (List.isPrefixOf_iff_prefix.mp around)))

theorem mem_of_get? {place : Location} {node : Node} (free : files.IsFree place)
    (there : files.get? place = some node) : (place, node) ∈ files.entries := by
  rw [get?, if_neg (by rw [free]; exact Bool.false_ne_true)] at there
  obtain ⟨front, back, split, -⟩ := List.lookup_eq_some_iff.mp there
  rw [split]
  exact List.mem_append_right _ List.mem_cons_self

theorem mem_below {place : Location} {listed : Location × Kind} : listed ∈ files.below place ↔
    ∃ node, (listed.1, node) ∈ files.entries ∧ node.kind = listed.2 ∧ place <+: listed.1 ∧
      listed.1 ≠ place := by
  obtain ⟨deeper, kind⟩ := listed
  rw [below, List.mem_mergeSort, List.mem_map]
  constructor
  · rintro ⟨⟨other, node⟩, inside, same⟩
    obtain ⟨rfl, rfl⟩ := Prod.mk.inj same
    obtain ⟨member, lies⟩ := List.mem_filter.mp inside
    rw [Bool.and_eq_true, bne_iff_ne] at lies
    exact ⟨node, member, rfl, List.isPrefixOf_iff_prefix.mp lies.1, lies.2⟩
  · rintro ⟨node, member, rfl, within, differs⟩
    refine ⟨(deeper, node), List.mem_filter.mpr ⟨member, ?_⟩, rfl⟩
    rw [Bool.and_eq_true, bne_iff_ne]
    exact ⟨List.isPrefixOf_iff_prefix.mpr within, differs⟩

/-- Nothing is listed twice below a place. -/
theorem IsKeyed.nodup_below (keyed : files.IsKeyed) (place : Location) :
    ((files.below place).map Prod.fst).Nodup := by
  have sorted := (List.mergeSort_perm ((files.entries.filter fun entry =>
    place.isPrefixOf entry.1 && entry.1 != place).map fun entry => (entry.1, entry.2.kind))
      fun a b => b.1.length ≤ a.1.length).map Prod.fst
  refine sorted.nodup_iff.mpr ?_
  rw [List.map_map]
  exact keyed.sublist (List.filter_sublist.map _)

theorem exists_names {root : Location} {listed : List (Location × Kind)}
    (files : ∀ item ∈ listed, ∃ file, item = (root ++ [file], .file))
    (distinct : (listed.map Prod.fst).Nodup) :
    ∃ names : List String, listed = names.map (fun file => (root ++ [file], .file)) ∧
      names.Nodup := by
  have named : ∃ names : List String, listed = names.map fun file => (root ++ [file], .file) := by
    clear distinct
    induction listed with
    | nil => exact ⟨[], rfl⟩
    | cons item rest ih =>
      obtain ⟨names, rfl⟩ := ih fun other member => files other (List.mem_cons_of_mem _ member)
      obtain ⟨file, rfl⟩ := files item List.mem_cons_self
      exact ⟨file :: names, rfl⟩
  obtain ⟨names, rfl⟩ := named
  refine ⟨names, rfl, ?_⟩
  rw [List.map_map] at distinct
  exact List.Pairwise.of_map _ (fun _ _ differ same => differ (same ▸ rfl)) distinct

/-- A survey of a directory of files lists them, each once. -/
theorem HoldsFiles.pathsBelow (holds : files.HoldsFiles directory name) (isName : Path.IsName name)
    (noFault : Path.fault? (Path.join directory name) = none)
    (short : name.utf8ByteSize ≤ Path.maxNameBytes) (enters : files.Enters directory)
    (keyed : files.IsKeyed)
    (free : files.IsFree (home files.working directory ++ [name])) :
    ∃ names : List String,
      Program.pathsBelow files (Path.join directory name) =
        names.map (fun file => (Path.join (Path.join directory name) file, .file)) ∧
      names.Nodup ∧ (∀ file ∈ names, files.Removable (Path.join directory name) file) ∧
      ∀ {place : Location}, home files.working directory ++ [name] <+: place →
        place ≠ home files.working directory ++ [name] → files.get? place ≠ none →
        ∃ file ∈ names, place = home files.working directory ++ [name] ++ [file] := by
  have each : ∀ item ∈ files.below (home files.working directory ++ [name]), ∃ file,
      item = (home files.working directory ++ [name] ++ [file], .file) ∧
        files.Removable (Path.join directory name) file := by
    intro item member
    obtain ⟨node, inTree, kind, within, differs⟩ := mem_below.mp member
    have there := keyed.get?_of_mem (free.below within) inTree
    obtain ⟨file, place, removable⟩ := holds.plain within differs there
    obtain ⟨content, isFile⟩ := removable.there
    rw [home_join isName, ← place, there] at isFile
    rw [Option.some.inj isFile] at kind
    exact ⟨file, Prod.ext place kind.symm, removable⟩
  obtain ⟨names, listed, distinct⟩ := exists_names
    (fun item member => (each item member).imp fun _ both => both.1)
    (keyed.nodup_below (home files.working directory ++ [name]))
  refine ⟨names, ?_, distinct, fun file member => ?_, fun {place} within differs there => ?_⟩
  · simp only [Program.pathsBelow, locate_join isName noFault enters short, listed, List.map_map]
    refine List.map_congr_left fun file _ => ?_
    simp only [Function.comp_apply, List.drop_left, List.foldl_cons, List.foldl_nil]
  · obtain ⟨other, same, removable⟩ := each _ (listed ▸ List.mem_map.mpr ⟨file, member, rfl⟩)
    obtain rfl : file = other := by simpa using same
    exact removable
  · obtain ⟨node, found⟩ := Option.ne_none_iff_exists'.mp there
    have member : (place, node.kind) ∈ files.below (home files.working directory ++ [name]) :=
      mem_below.mpr ⟨node, mem_of_get? (free.below within) found, rfl, within, differs⟩
    rw [listed] at member
    obtain ⟨file, inside, same⟩ := List.mem_map.mp member
    exact ⟨file, inside, (Prod.mk.inj same).1.symm⟩

end Files

namespace FileTask

variable {time : Moment} {files : Files} {directory name : String}

/-- A directory in which there are only files is removed.  Wherever that breaks off, just some of the
files are gone, or the directory is gone too. -/
theorem completes_removeTree (isName : Path.IsName name)
    (noFault : Path.fault? (Path.join directory name) = none)
    (short : name.utf8ByteSize ≤ Path.maxNameBytes) (enters : files.Enters directory)
    (keyed : files.IsKeyed) (free : files.IsFree (Files.home files.working directory ++ [name]))
    (holds : files.HoldsFiles directory name) :
    (removeTree (Path.join directory name)).Completes time files
      (fun left =>
        Files.Loses (fun place => Files.home files.working directory ++ [name] <+: place ∧
          place ≠ Files.home files.working directory ++ [name]) files left ∨
        Files.Empties (Files.home files.working directory ++ [name] <+: ·) files left)
      fun _ after =>
        Files.Empties (Files.home files.working directory ++ [name] <+: ·) files after := by
  obtain ⟨names, listed, distinct, removable, all⟩ :=
    holds.pathsBelow isName noFault short enters keyed free
  have entersInside : files.Enters (Path.join directory name) :=
    enters.join isName short holds.there
  refine (completes_look (.inl (.refl _ _))).bind ?_
  rintro _ _ ⟨rfl, rfl⟩
  have kind : Program.kindAt files (Path.join directory name) = some .directory := by
    simp only [Program.kindAt, Files.reach, Files.locate_join isName noFault enters short, bind,
      Except.bind, holds.there, pure, Except.pure, Except.toOption, Option.join_some,
      Option.map_some, Node.kind]
  rw [kind]
  refine (completes_survey (.inl (.refl _ _))).bind ?_
  rintro _ _ ⟨rfl, rfl⟩
  rw [listed]
  have cleared : (removeListed (Path.join directory name) (names.map fun file =>
      (Path.join (Path.join directory name) file, .file))).Completes time files _ _ :=
    completes_removeListed distinct entersInside removable
  rw [Files.home_join isName] at cleared
  have inside {left : Files} (loses : Files.Loses (· ∈ names.map fun file =>
      Files.home files.working directory ++ [name] ++ [file]) files left) :
      Files.Loses (fun place => Files.home files.working directory ++ [name] <+: place ∧
        place ≠ Files.home files.working directory ++ [name]) files left := by
    refine loses.mono fun place member => ?_
    obtain ⟨file, -, rfl⟩ := List.mem_map.mp member
    exact ⟨List.prefix_append _ _, by simp⟩
  refine ((cleared.keeping (fun changes keyed => Files.IsKeyed.change keyed changes) keyed).holding
    fun left loses => .inl (inside loses.1)).bind ?_
  rintro _ after ⟨⟨loses, gone⟩, keyedAfter⟩
  -- nothing is left inside, so the directory can be removed
  have nothing : ∀ place, Files.home files.working directory ++ [name] <+: place →
      place ≠ Files.home files.working directory ++ [name] → after.get? place = none := by
    intro place within differs
    rcases loses.rest place with same | none
    · by_cases there : files.get? place = none
      · rw [same, there]
      · obtain ⟨file, member, rfl⟩ := all within differs there
        exact gone file member
    · exact none
  have freeAfter : after.IsFree (Files.home files.working directory ++ [name]) := by
    rw [Files.IsFree, loses.working]
    exact free
  have empty : after.below (Files.home files.working directory ++ [name]) = [] := by
    rw [List.eq_nil_iff_forall_not_mem]
    intro item member
    obtain ⟨node, inTree, -, within, differs⟩ := Files.mem_below.mp member
    have there := keyedAfter.get?_of_mem (freeAfter.below within) inTree
    rw [nothing _ within differs] at there
    cases there
  have changes : after.change (.removeDirectory (Path.join directory name)) =
      .ok (after.erase (Files.home files.working directory ++ [name])) := by
    have named := Files.named_join isName noFault (loses.enters enters) short Files.busy
    have there := loses.directories _ holds.there
    rw [loses.working] at named
    rw [Files.IsFree] at freeAfter
    simp only [Files.change, Files.removeDirectory, named, there, empty, freeAfter, bind,
      Except.bind, List.isEmpty_nil, Bool.not_true, Bool.false_eq_true, if_false]
  have emptied : Files.Empties (Files.home files.working directory ++ [name] <+: ·) files
      (after.erase (Files.home files.working directory ++ [name])) := by
    refine ⟨((inside loses).toAgreesOff.mono fun _ => And.left).trans
      ((Files.agreesOff_erase _ _).mono ?_), fun place within => ?_⟩
    · rintro _ rfl
      exact List.prefix_refl _
    · by_cases same : place = Files.home files.working directory ++ [name]
      · rw [same]
        exact Files.get?_erase_self freeAfter
      · rw [Files.get?_erase_of_ne same]
        exact nothing place within same
  refine Completes.mono (completes_change (.inl (inside loses)) changes
    (fun part partly => by cases partly; rfl) (.inr emptied)) ?_
  rintro _ _ rfl
  exact emptied

end FileTask

end TreeExport

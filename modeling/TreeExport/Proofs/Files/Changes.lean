import TreeExport.Proofs.Files.Places

/-!
# What a change does

`edit_of_change` says once what every change does to a tree: it puts something at a place or takes
it away, or both for a renaming.  What is derived from it is said in terms of `Files.get?`, so that
a proof about files never looks at how a tree lists them.
-/

namespace TreeExport.Files

/-! ## Looking up after a change -/

theorem lookup_filter_of_ne {entries : List (Location × Node)} {place other : Location}
    (differs : other ≠ place) :
    (entries.filter fun entry => entry.1 != place).lookup other = entries.lookup other := by
  induction entries with
  | nil => rfl
  | cons entry rest ih =>
    obtain ⟨at_place, node⟩ := entry
    by_cases here : at_place = place
    · have dropped : (at_place != place) = false := by simp [here]
      have unseen : (other == at_place) = false := by simp [here, differs]
      rw [List.filter_cons, if_neg (by simp [dropped]), ih, List.lookup_cons, unseen]
    · have kept : (at_place != place) = true := by simp [here]
      rw [List.filter_cons, if_pos kept, List.lookup_cons, List.lookup_cons, ih]

theorem lookup_filter_self {entries : List (Location × Node)} {place : Location} :
    (entries.filter fun entry => entry.1 != place).lookup place = none := by
  induction entries with
  | nil => rfl
  | cons entry rest ih =>
    obtain ⟨at_place, node⟩ := entry
    by_cases here : at_place = place
    · rw [List.filter_cons, if_neg (by simp [here]), ih]
    · have unseen : (place == at_place) = false := by simp [Ne.symm here]
      rw [List.filter_cons, if_pos (by simp [here]), List.lookup_cons, unseen, ih]

/-- The place is not that of the working directory or of one around it. -/
def IsFree (files : Files) (place : Location) : Prop :=
  place.isPrefixOf files.working = false

theorem isFree_of_get?_ne {files : Files} {place : Location}
    (other : files.get? place ≠ some .directory) : files.IsFree place := by
  unfold get? at other
  split at other
  · exact absurd rfl other
  · next notPrefix => exact Bool.eq_false_iff.mpr notPrefix

theorem get?_put_self {files : Files} {place : Location} (free : files.IsFree place)
    (node : Node) : (files.put place node).get? place = some node := by
  unfold get?
  rw [if_neg (by rw [put, erase, free]; exact Bool.false_ne_true), put, List.lookup_cons,
    beq_self_eq_true]

theorem get?_put_of_ne {files : Files} {place other : Location} (differs : other ≠ place)
    (node : Node) : (files.put place node).get? other = files.get? other := by
  have unseen : (other == place) = false := by simp [differs]
  simp only [get?, put, erase, List.lookup_cons, unseen, lookup_filter_of_ne differs]

theorem get?_erase_self {files : Files} {place : Location} (free : files.IsFree place) :
    (files.erase place).get? place = none := by
  unfold get?
  rw [if_neg (by rw [erase, free]; exact Bool.false_ne_true), erase, lookup_filter_self]

theorem get?_erase_of_ne {files : Files} {place other : Location} (differs : other ≠ place) :
    (files.erase place).get? other = files.get? other := by
  simp only [get?, erase, lookup_filter_of_ne differs]

/-! ## Trees that agree off some places -/

/-- The trees have one working directory and the same nodes but for some places. -/
structure AgreesOff (places : Location → Prop) (before after : Files) : Prop where
  working : after.working = before.working
  same : ∀ place, ¬ places place → after.get? place = before.get? place

theorem AgreesOff.refl (places : Location → Prop) (files : Files) :
    AgreesOff places files files :=
  ⟨rfl, fun _ _ => rfl⟩

theorem AgreesOff.trans {places : Location → Prop} {first second third : Files}
    (early : AgreesOff places first second) (late : AgreesOff places second third) :
    AgreesOff places first third :=
  ⟨late.working.trans early.working,
    fun place off => (late.same place off).trans (early.same place off)⟩

theorem AgreesOff.mono {places more : Location → Prop} {before after : Files}
    (agrees : AgreesOff places before after) (within : ∀ place, places place → more place) :
    AgreesOff more before after :=
  ⟨agrees.working, fun place off => agrees.same place fun inside => off (within place inside)⟩

theorem agreesOff_put (files : Files) (place : Location) (node : Node) :
    AgreesOff (· = place) files (files.put place node) :=
  ⟨rfl, fun _ differs => get?_put_of_ne differs node⟩

theorem agreesOff_erase (files : Files) (place : Location) :
    AgreesOff (· = place) files (files.erase place) :=
  ⟨rfl, fun _ differs => get?_erase_of_ne differs⟩

/-- The trees agree off some places, and whatever was a directory is one still. -/
structure Overwrites (places : Location → Prop) (before after : Files) : Prop
    extends AgreesOff places before after where
  directories : ∀ place, before.get? place = some .directory → after.get? place = some .directory

theorem Overwrites.refl (places : Location → Prop) (files : Files) :
    Overwrites places files files :=
  ⟨.refl places files, fun _ there => there⟩

theorem Overwrites.trans {places : Location → Prop} {first second third : Files}
    (early : Overwrites places first second) (late : Overwrites places second third) :
    Overwrites places first third :=
  ⟨early.toAgreesOff.trans late.toAgreesOff,
    fun place there => late.directories place (early.directories place there)⟩

theorem Overwrites.mono {places more : Location → Prop} {before after : Files}
    (overwrites : Overwrites places before after) (within : ∀ place, places place → more place) :
    Overwrites more before after :=
  ⟨overwrites.toAgreesOff.mono within, overwrites.directories⟩

/-- What is written at a place that is no directory leaves the directories. -/
theorem AgreesOff.overwrites {places : Location → Prop} {before after : Files}
    (agrees : AgreesOff places before after)
    (noDirectory : ∀ place, places place → before.get? place ≠ some .directory) :
    Overwrites places before after := by
  refine ⟨agrees, fun place there => ?_⟩
  rw [agrees.same place fun inside => noDirectory place inside there]
  exact there

theorem walk_of_directories {before after : Files}
    (directories : ∀ place, before.get? place = some .directory →
      after.get? place = some .directory) {place target : Location} {way : List Path.Step}
    (walked : before.walk place way = .ok target) : after.walk place way = .ok target := by
  induction way generalizing place with
  | nil => exact walked
  | cons step way ih =>
    simp only [walk] at walked ⊢
    split at walked
    · next there =>
      rw [directories place there]
      cases step with
      | stay => exact ih walked
      | up => exact ih walked
      | enter name =>
        simp only at walked ⊢
        split at walked
        · cases walked
        · next short =>
          rw [if_neg short]
          exact ih walked
    · cases walked
    · cases walked

/-- A directory that can be entered stays so. -/
theorem Overwrites.enters {places : Location → Prop} {before after : Files}
    (overwrites : Overwrites places before after) {directory : String}
    (enters : before.Enters directory) : after.Enters directory := by
  refine ⟨?_, ?_⟩
  · rw [overwrites.working]
    exact walk_of_directories overwrites.directories enters.walked
  · rw [overwrites.working]
    exact overwrites.directories _ enters.there

/-- A path that leads somewhere still does. -/
theorem Overwrites.locate {places : Location → Prop} {before after : Files}
    (overwrites : Overwrites places before after) {path : String} {place : Location}
    (located : before.locate path = .ok place) : after.locate path = .ok place := by
  unfold Files.locate follow at located ⊢
  split at located
  · cases located
  · rw [overwrites.working]
    exact walk_of_directories overwrites.directories located

/-! ## The changes -/

/-- What a change does that is made. -/
inductive Edit (files : Files) : Change → Files → Prop
  | create {path : String} {place : Location} (named : files.named path .isDirectory = .ok place)
      (noDirectory : files.get? place ≠ some .directory) :
      Edit files (.create path) (files.put place (.file []))
  | extend {path : String} {bytes content : Bytes} {place : Location}
      (located : files.locate path = .ok place)
      (there : files.get? place = some (.file content)) :
      Edit files (.extend path bytes) (files.put place (.file (content ++ bytes)))
  | rename {path target : String} {place aim : Location} {content : Bytes}
      (named : files.named path busy = .ok place)
      (there : files.get? place = some (.file content))
      (aimed : files.named target busy = .ok aim)
      (noDirectory : files.get? aim ≠ some .directory) :
      Edit files (.rename path target) ((files.erase place).put aim (.file content))
  | removeFile {path : String} {place : Location} {content : Bytes}
      (named : files.named path .isDirectory = .ok place)
      (there : files.get? place = some (.file content)) :
      Edit files (.removeFile path) (files.erase place)
  | removeDirectory {path : String} {place : Location} (named : files.named path busy = .ok place)
      (free : files.IsFree place) : Edit files (.removeDirectory path) (files.erase place)
  | makeDirectory {path : String} {place : Location}
      (named : files.named path .alreadyThere = .ok place) (nothing : files.get? place = none) :
      Edit files (.makeDirectory path) (files.put place .directory)

theorem fileAt_ok {files : Files} {path : String} {dots : Fault} {place : Location}
    {content : Bytes} (there : files.fileAt path dots = .ok (place, content)) :
    files.named path dots = .ok place ∧ files.get? place = some (.file content) := by
  simp only [fileAt, bind, Except.bind] at there
  split at there
  · cases there
  · next target named =>
    split at there
    · next bytes isFile =>
      split at there
      · cases there
      · cases there
        exact ⟨named, isFile⟩
    · cases there
    · cases there

theorem edit_of_change {files after : Files} {c : Change} (changes : files.change c = .ok after) :
    Edit files c after := by
  cases c with
  | create path =>
    simp only [change, Files.create, bind, Except.bind] at changes
    split at changes
    · cases changes
    · next place named =>
      split at changes
      · cases changes
      · split at changes
        · cases changes
        · next noDirectory =>
          cases changes
          exact .create named noDirectory
  | extend path bytes =>
    simp only [change, Files.extend, bind, Except.bind] at changes
    split at changes
    · cases changes
    · next place located =>
      split at changes
      · next content there =>
        cases changes
        exact .extend located there
      · cases changes
      · cases changes
  | rename path target =>
    simp only [change, Files.rename, bind, Except.bind] at changes
    split at changes
    · cases changes
    · next pair fileThere =>
      obtain ⟨place, content⟩ := pair
      obtain ⟨named, there⟩ := fileAt_ok fileThere
      simp only at changes
      split at changes
      · cases changes
      · next aim aimed =>
        split at changes
        · cases changes
        · next noDirectory =>
          split at changes
          · cases changes
          · cases changes
            exact .rename named there aimed noDirectory
  | removeFile path =>
    simp only [change, Files.removeFile, bind, Except.bind] at changes
    split at changes
    · cases changes
    · next pair fileThere =>
      obtain ⟨place, content⟩ := pair
      obtain ⟨named, there⟩ := fileAt_ok fileThere
      cases changes
      exact .removeFile named there
  | removeDirectory path =>
    simp only [change, Files.removeDirectory, bind, Except.bind] at changes
    split at changes
    · cases changes
    · next place named =>
      split at changes
      · split at changes
        · cases changes
        · split at changes
          · cases changes
          · next notPrefix =>
            cases changes
            exact .removeDirectory named (Bool.eq_false_iff.mpr notPrefix)
      · cases changes
      · cases changes
  | makeDirectory path =>
    simp only [change, Files.makeDirectory, bind, Except.bind] at changes
    split at changes
    · cases changes
    · next place named =>
      split at changes
      · next nothing =>
        cases changes
        exact .makeDirectory named nothing
      · cases changes

/-! ## One change -/

variable {files changed : Files} {path : String} {place : Location}

theorem isFree_of_file {content : Bytes} (there : files.get? place = some (.file content)) :
    files.IsFree place :=
  isFree_of_get?_ne (by rw [there]; simp)

/-- What is put in place of a file, or of nothing, leaves the directories. -/
theorem overwrites_put {node : Node} (noDirectory : files.get? place ≠ some .directory) :
    Overwrites (· = place) files (files.put place node) := by
  refine (agreesOff_put ..).overwrites ?_
  rintro _ rfl
  exact noDirectory

theorem overwrites_erase {content : Bytes} (there : files.get? place = some (.file content)) :
    Overwrites (· = place) files (files.erase place) := by
  refine (agreesOff_erase ..).overwrites ?_
  rintro _ rfl directory
  rw [there] at directory
  cases directory

theorem create_ok (leads : Leads files.working path place)
    (created : files.change (.create path) = .ok changed) :
    changed.get? place = some (.file []) ∧ Overwrites (· = place) files changed := by
  cases edit_of_change created with
  | create named noDirectory =>
    obtain rfl := leads.named rfl named
    exact ⟨get?_put_self (isFree_of_get?_ne noDirectory) _, overwrites_put noDirectory⟩

/-- Bytes are put at the end of the file that a path leads to. -/
theorem extend_at_goal {bytes : Bytes} (extended : files.change (.extend path bytes) = .ok changed) :
    files.locate path = .ok (goal files.working path) ∧
      ∃ content, files.get? (goal files.working path) = some (.file content) ∧
        changed.get? (goal files.working path) = some (.file (content ++ bytes)) ∧
        Overwrites (· = goal files.working path) files changed := by
  cases edit_of_change extended with
  | extend located there =>
    obtain rfl := eq_goal_of_locate located
    exact ⟨located, _, there, get?_put_self (isFree_of_file there) _,
      overwrites_put (by rw [there]; simp)⟩

/-- A file that a path leads to can be extended. -/
theorem extend_of_openAt {content : Bytes} (opens : files.openAt path = .ok (.file content))
    (bytes : Bytes) : ∃ after, files.change (.extend path bytes) = .ok after ∧
      after.openAt path = .ok (.file (content ++ bytes)) := by
  obtain ⟨located, there⟩ := locate_of_openAt opens
  have extended : files.change (.extend path bytes) =
      .ok (files.put (goal files.working path) (.file (content ++ bytes))) := by
    simp only [change, Files.extend, located, bind, Except.bind, there]
  obtain ⟨-, old, was, now, overwrites⟩ := extend_at_goal extended
  rw [there] at was
  cases was
  exact ⟨_, extended, openAt_of_locate (overwrites.locate located) now⟩

theorem extend_ok {bytes : Bytes} (leads : Leads files.working path place)
    (extended : files.change (.extend path bytes) = .ok changed) :
    ∃ content, files.get? place = some (.file content) ∧
      changed.get? place = some (.file (content ++ bytes)) ∧
      Overwrites (· = place) files changed := by
  obtain ⟨located, longer⟩ := extend_at_goal extended
  rwa [leads.located rfl located] at longer

theorem rename_ok {target : String} {aim : Location} (leads : Leads files.working path place)
    (aims : Leads files.working target aim) (apart : aim ≠ place)
    (renamed : files.change (.rename path target) = .ok changed) :
    ∃ content, files.get? place = some (.file content) ∧
      changed.get? aim = some (.file content) ∧
      Overwrites (fun other => other = place ∨ other = aim) files changed := by
  cases edit_of_change renamed with
  | @rename _ _ found goal content named there aimed noDirectory =>
    obtain rfl := leads.named rfl named
    obtain rfl := aims.named rfl aimed
    have free : files.IsFree goal := isFree_of_get?_ne noDirectory
    have stillFree : (files.erase found).IsFree goal := free
    refine ⟨content, there, get?_put_self stillFree _, ?_⟩
    refine ((overwrites_erase there).mono fun _ => .inl).trans ?_
    refine (overwrites_put ?_).mono fun _ => .inr
    rw [get?_erase_of_ne apart]
    exact noDirectory

theorem removeFile_ok (leads : Leads files.working path place)
    (removed : files.change (.removeFile path) = .ok changed) :
    changed.get? place = none ∧ Overwrites (· = place) files changed := by
  cases edit_of_change removed with
  | removeFile named there =>
    obtain rfl := leads.named rfl named
    exact ⟨get?_erase_self (isFree_of_file there), overwrites_erase there⟩

theorem removeDirectory_ok (leads : Leads files.working path place)
    (removed : files.change (.removeDirectory path) = .ok changed) :
    changed.get? place = none ∧ AgreesOff (· = place) files changed := by
  cases edit_of_change removed with
  | removeDirectory named free =>
    obtain rfl := leads.named rfl named
    exact ⟨get?_erase_self free, agreesOff_erase ..⟩

theorem makeDirectory_ok {directory name : String} (isName : Path.IsName name)
    (made : files.change (.makeDirectory (Path.join directory name)) = .ok changed) :
    changed.get? (home files.working directory ++ [name]) = some .directory ∧
      Path.fault? (Path.join directory name) = none := by
  cases edit_of_change made with
  | makeDirectory named nothing =>
    obtain rfl := (leads_join files.working directory isName).named rfl named
    exact ⟨get?_put_self (isFree_of_get?_ne (by rw [nothing]; simp)) _,
      (enters_of_named isName named).1⟩

/-- What a file is renamed to lies in a directory that can be entered. -/
theorem enters_of_rename {directory name : String} (isName : Path.IsName name)
    (renamed : files.change (.rename path (Path.join directory name)) = .ok changed) :
    Path.fault? (Path.join directory name) = none ∧ files.Enters directory := by
  cases edit_of_change renamed with
  | rename _ _ aimed _ => exact enters_of_named isName aimed

/-! ## What every change keeps -/

theorem working_change {c : Change} (changes : files.change c = .ok changed) :
    changed.working = files.working := by
  cases edit_of_change changes <;> rfl

/-- The changes that remove, or make a directory. -/
def Change.WritesNoFile : Change → Prop
  | .removeFile _ => True
  | .removeDirectory _ => True
  | .makeDirectory _ => True
  | _ => False

/-- No file stands at the place. -/
def HasNoFile (files : Files) (place : Location) : Prop :=
  ∀ content, files.get? place ≠ some (.file content)

theorem HasNoFile.erase {other : Location} (absent : files.HasNoFile place)
    (free : files.IsFree other) : (files.erase other).HasNoFile place := by
  intro content
  by_cases same : place = other
  · rw [same, get?_erase_self free]
    simp
  · rw [get?_erase_of_ne same]
    exact absent content

theorem HasNoFile.change {c : Change} (absent : files.HasNoFile place) (noFile : c.WritesNoFile)
    (changes : files.change c = .ok changed) : changed.HasNoFile place := by
  cases edit_of_change changes with
  | create => exact noFile.elim
  | extend => exact noFile.elim
  | rename => exact noFile.elim
  | removeFile _ there => exact absent.erase (isFree_of_file there)
  | removeDirectory _ free => exact absent.erase free
  | @makeDirectory _ found _ nothing =>
    intro content
    by_cases same : place = found
    · rw [same, get?_put_self (isFree_of_get?_ne (by rw [nothing]; simp))]
      simp
    · rw [get?_put_of_ne same]
      exact absent content

/-- The changes that write a file. -/
def Change.Writes (path : String) : Change → Prop
  | .create other => other = path
  | .extend other _ => other = path
  | _ => False

/-- A file is written at the place that its path leads to. -/
theorem Change.Writes.overwrites {c : Change} (writes : c.Writes path)
    (leads : Leads files.working path place) (changes : files.change c = .ok changed) :
    Overwrites (· = place) files changed := by
  cases c with
  | create other =>
    obtain rfl : other = path := writes
    exact (create_ok leads changes).2
  | extend other bytes =>
    obtain rfl : other = path := writes
    obtain ⟨_, _, _, overwrites⟩ := extend_ok leads changes
    exact overwrites
  | _ => exact absurd writes id

/-- Everything in the tree is named with names, and so is the working directory. -/
structure IsProper (files : Files) : Prop where
  working : ∀ name ∈ files.working, Path.IsName name
  entries : ∀ entry ∈ files.entries, ∀ name ∈ entry.1, Path.IsName name

theorem IsProper.erase (proper : files.IsProper) (place : Location) :
    (files.erase place).IsProper :=
  ⟨proper.working, fun entry member => proper.entries entry (List.mem_filter.mp member).1⟩

theorem IsProper.put (proper : files.IsProper) {place : Location}
    (names : ∀ name ∈ place, Path.IsName name) (node : Node) : (files.put place node).IsProper := by
  refine ⟨proper.working, fun entry member => ?_⟩
  rcases List.mem_cons.mp member with rfl | later
  · exact names
  · exact (proper.erase place).entries entry later

theorem IsProper.isName_of_get? (proper : files.IsProper) {node : Node}
    (there : files.get? place = some node) : ∀ name ∈ place, Path.IsName name := by
  unfold get? at there
  split at there
  · next within =>
    intro name member
    exact proper.working name ((List.isPrefixOf_iff_prefix.mp within).subset member)
  · obtain ⟨front, back, split, -⟩ := List.lookup_eq_some_iff.mp there
    have inside : (place, node) ∈ files.entries := by
      rw [split]
      exact List.mem_append_right _ List.mem_cons_self
    exact proper.entries _ inside

theorem IsProper.change {c : Change} (proper : files.IsProper)
    (changes : files.change c = .ok changed) : changed.IsProper := by
  have names := @isName_of_mem_named files
  cases edit_of_change changes with
  | create named => exact proper.put (names proper.working named) _
  | extend _ there => exact proper.put (proper.isName_of_get? there) _
  | rename _ _ aimed => exact (proper.erase _).put (names proper.working aimed) _
  | removeFile => exact proper.erase _
  | removeDirectory => exact proper.erase _
  | makeDirectory named => exact proper.put (names proper.working named) _

/-- No place is listed twice. -/
def IsKeyed (files : Files) : Prop :=
  (files.entries.map Prod.fst).Nodup

theorem IsKeyed.erase (keyed : files.IsKeyed) (place : Location) : (files.erase place).IsKeyed :=
  keyed.sublist (List.filter_sublist.map _)

theorem IsKeyed.put (keyed : files.IsKeyed) (place : Location) (node : Node) :
    (files.put place node).IsKeyed := by
  refine List.nodup_cons.mpr ⟨fun member => ?_, keyed.erase place⟩
  obtain ⟨entry, inside, same⟩ := List.mem_map.mp member
  have differs := (List.mem_filter.mp inside).2
  simp [same] at differs

theorem IsKeyed.change {c : Change} (keyed : files.IsKeyed)
    (changes : files.change c = .ok changed) : changed.IsKeyed := by
  cases edit_of_change changes with
  | create => exact keyed.put _ _
  | extend => exact keyed.put _ _
  | rename => exact (keyed.erase _).put _ _
  | removeFile => exact keyed.erase _
  | removeDirectory => exact keyed.erase _
  | makeDirectory => exact keyed.put _ _

/-- What is listed for a place stands there. -/
theorem IsKeyed.get?_of_mem (keyed : files.IsKeyed) (free : files.IsFree place) {node : Node}
    (member : (place, node) ∈ files.entries) : files.get? place = some node := by
  rw [get?, if_neg (by rw [free]; exact Bool.false_ne_true)]
  unfold IsKeyed at keyed
  generalize files.entries = entries at keyed member
  induction entries with
  | nil => exact absurd member List.not_mem_nil
  | cons entry rest ih =>
    obtain ⟨first, deeper⟩ := List.nodup_cons.mp keyed
    rcases List.mem_cons.mp member with rfl | later
    · rw [List.lookup_cons, beq_self_eq_true]
    · have differs : (place == entry.1) = false := by
        rw [beq_eq_false_iff_ne]
        rintro rfl
        exact first (List.mem_map.mpr ⟨_, later, rfl⟩)
      rw [List.lookup_cons, differs]
      exact ih deeper later

end TreeExport.Files

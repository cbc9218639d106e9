import TreeExport.Proofs.Files.Changes
import TreeExport.Files.Program

/-!
# What tasks achieve

A task on files is judged by one statement, `FileTask.Achieves`: it succeeds exactly if every
operation on files does that it comes to, and what it leaves behind if it succeeds is as is said.
So one proof about a task serves both where the task is known to have succeeded and where no
operation is known to fail.  `FileTask.Settles` is the same for a task that also refuses what it
reads.
-/

namespace TreeExport

namespace Program

variable {α β : Type}

theorem andThen_assoc {γ : Type} (program : Program α) (next : α → Program β)
    (last : β → Program γ) :
    (program.andThen next).andThen last = program.andThen fun value => (next value).andThen last := by
  induction program with
  | done value => rfl
  | look path k ih => exact congrArg _ (funext ih)
  | access path k ih => exact congrArg _ (funext ih)
  | survey path k ih => exact congrArg _ (funext ih)
  | change c k ih => exact congrArg _ (funext ih)
  | now k ih => exact congrArg _ (funext ih)

theorem andThen_done (program : Program α) : program.andThen done = program := by
  induction program with
  | done value => rfl
  | look path k ih => exact congrArg _ (funext ih)
  | access path k ih => exact congrArg _ (funext ih)
  | survey path k ih => exact congrArg _ (funext ih)
  | change c k ih => exact congrArg _ (funext ih)
  | now k ih => exact congrArg _ (funext ih)

instance : LawfulMonad Program :=
  LawfulMonad.mk' Program andThen_done (fun _ _ => rfl) andThen_assoc

/-- Every operation succeeds that the program comes to on a file tree. -/
def Steady (time : Moment) : Program α → Files → Prop
  | done _, _ => True
  | look path k, files => Steady time (k (kindAt files path)) files
  | access path k, files =>
    (∃ node, files.openAt path = .ok node) ∧ Steady time (k (files.openAt path)) files
  | survey path k, files => Steady time (k (pathsBelow files path)) files
  | change c k, files =>
    match files.change c with
    | .ok changed => Steady time (k (.ok ())) changed
    | .error _ => False
  | now k, files => Steady time (k time) files

/-- Whether every operation that a program comes to succeeds. -/
instance decidableSteady (time : Moment) :
    (program : Program α) → (files : Files) → Decidable (Steady time program files)
  | done _, _ => .isTrue trivial
  | look path k, files => decidableSteady time (k (kindAt files path)) files
  | access path k, files =>
    have : Decidable (∃ node, files.openAt path = .ok node) :=
      match files.openAt path with
      | .ok node => .isTrue ⟨node, rfl⟩
      | .error _ => .isFalse fun ⟨_, opened⟩ => nomatch opened
    have := decidableSteady time (k (files.openAt path)) files
    inferInstanceAs (Decidable (_ ∧ _))
  | survey path k, files => decidableSteady time (k (pathsBelow files path)) files
  | change c k, files =>
    match changed : files.change c with
    | .ok after =>
      have := decidableSteady time (k (.ok ())) after
      decidable_of_iff (Steady time (k (.ok ())) after) (by simp only [Steady, changed])
    | .error _ => .isFalse (by simp only [Steady, changed, not_false_eq_true])
  | now k, files => decidableSteady time (k time) files

theorem steady_andThen (time : Moment) (next : α → Program β) (program : Program α)
    (files : Files) :
    Steady time (program.andThen next) files ↔
      Steady time program files ∧
        Steady time (next (program.run time files).1) (program.run time files).2 := by
  induction program generalizing files with
  | done value => exact ⟨fun later => ⟨trivial, later⟩, fun both => both.2⟩
  | look path k ih => exact ih _ files
  | access path k ih =>
    have rest := ih (files.openAt path) files
    constructor
    · rintro ⟨opened, later⟩
      exact ⟨⟨opened, (rest.mp later).1⟩, (rest.mp later).2⟩
    · rintro ⟨⟨opened, first⟩, later⟩
      exact ⟨opened, rest.mpr ⟨first, later⟩⟩
  | survey path k ih => exact ih _ files
  | change c k ih =>
    simp only [andThen, Steady, run]
    cases files.change c with
    | ok changed => exact ih _ changed
    | error fault => exact ⟨False.elim, fun both => both.1⟩
  | now k ih => exact ih _ files

/-- Every change that the program may come to is one of some. -/
def Only (allowed : Files.Change → Prop) : Program α → Prop
  | done _ => True
  | look _ k => ∀ answer, Only allowed (k answer)
  | access _ k => ∀ answer, Only allowed (k answer)
  | survey _ k => ∀ answer, Only allowed (k answer)
  | change c k => allowed c ∧ ∀ answer, Only allowed (k answer)
  | now k => ∀ answer, Only allowed (k answer)

theorem Only.andThen {allowed : Files.Change → Prop} {next : α → Program β}
    {program : Program α} (first : program.Only allowed)
    (second : ∀ value, (next value).Only allowed) : (program.andThen next).Only allowed := by
  induction program with
  | done value => exact second value
  | look path k ih => exact fun answer => ih answer (first answer)
  | access path k ih => exact fun answer => ih answer (first answer)
  | survey path k ih => exact fun answer => ih answer (first answer)
  | change c k ih => exact ⟨first.1, fun answer => ih answer (first.2 answer)⟩
  | now k ih => exact fun answer => ih answer (first answer)

/-- What every change keeps that the program may come to, the program keeps. -/
theorem Only.run {allowed : Files.Change → Prop} {kept : Files → Prop}
    (keeps : ∀ {files changed : Files} {c : Files.Change}, allowed c →
      files.change c = .ok changed → kept files → kept changed)
    {program : Program α} (only : program.Only allowed) (time : Moment) {files : Files}
    (holds : kept files) : kept (program.run time files).2 := by
  induction program generalizing files with
  | done value => exact holds
  | look path k ih => exact ih _ (only _) holds
  | access path k ih => exact ih _ (only _) holds
  | survey path k ih => exact ih _ (only _) holds
  | change c k ih =>
    rw [Program.run]
    split
    · next changed changes => exact ih _ (only.2 _) (keeps only.1 changes holds)
    · exact ih _ (only.2 _) holds
  | now k ih => exact ih _ (only _) holds

theorem only_true (program : Program α) : program.Only fun _ => True := by
  induction program with
  | done value => trivial
  | look path k ih => exact ih
  | access path k ih => exact ih
  | survey path k ih => exact ih
  | change c k ih => exact ⟨trivial, ih⟩
  | now k ih => exact ih

/-- A program leaves the working directory and takes up no name that is none. -/
theorem run_isProper (time : Moment) (program : Program α) {files : Files}
    (proper : files.IsProper) : (program.run time files).2.IsProper :=
  Only.run (fun _ changes proper => proper.change changes) program.only_true time proper

theorem run_working (time : Moment) (program : Program α) (files : Files) :
    (program.run time files).2.working = files.working :=
  Only.run (fun _ changes same => (Files.working_change changes).trans same) program.only_true time
    rfl

end Program

namespace FileTask

variable {α β : Type} {time : Moment} {files : Files}

/-- The task succeeds exactly if every operation does that it comes to, and what it yields and
leaves behind if it succeeds is as is said. -/
def Achieves (time : Moment) (task : FileTask α) (files : Files)
    (post : α → Files → Prop) : Prop :=
  match task.runOn time files with
  | (.ok value, after) => Program.Steady time task.run files ∧ post value after
  | (.error _, _) => ¬ Program.Steady time task.run files

theorem Achieves.of_ok {task : FileTask α} {post : α → Files → Prop} {value : α} {after : Files}
    (achieves : task.Achieves time files post) (done : task.runOn time files = (.ok value, after)) :
    post value after := by
  unfold Achieves at achieves
  rw [done] at achieves
  exact achieves.2

theorem Achieves.of_steady {task : FileTask α} {post : α → Files → Prop}
    (achieves : task.Achieves time files post) (steady : Program.Steady time task.run files) :
    ∃ value after, task.runOn time files = (.ok value, after) ∧ post value after := by
  unfold Achieves at achieves
  split at achieves
  · next value after done => exact ⟨value, after, done, achieves.2⟩
  · exact absurd steady achieves

theorem Achieves.mono {task : FileTask α} {post weaker : α → Files → Prop}
    (achieves : task.Achieves time files post)
    (implies : ∀ value after, post value after → weaker value after) :
    task.Achieves time files weaker := by
  unfold Achieves at *
  split
  · next value after done =>
    rw [done] at achieves
    exact ⟨achieves.1, implies value after achieves.2⟩
  · next cause after failed =>
    rw [failed] at achieves
    exact achieves

theorem Achieves.keeping {task : FileTask α} {post : α → Files → Prop}
    (achieves : task.Achieves time files post) (proper : files.IsProper) :
    task.Achieves time files fun value after => post value after ∧ after.IsProper := by
  have kept := Program.run_isProper time task.run proper
  unfold Achieves at *
  split
  · next value after done =>
    rw [done] at achieves
    rw [runOn] at done
    rw [done] at kept
    exact ⟨achieves.1, achieves.2, kept⟩
  · next cause after failed =>
    rw [failed] at achieves
    exact achieves

/-! ## Tasks that look at what they read -/

/-- The task succeeds exactly if every operation does that it comes to and something is the case
besides; what it yields and leaves behind if it succeeds is as is said. -/
def Settles (time : Moment) (task : FileTask α) (files : Files) (good : Prop)
    (post : α → Files → Prop) : Prop :=
  match task.runOn time files with
  | (.ok value, after) => (Program.Steady time task.run files ∧ good) ∧ post value after
  | (.error _, _) => ¬ (Program.Steady time task.run files ∧ good)

section

variable {task : FileTask α} {next : α → FileTask β} {good more : Prop}
  {post middle : α → Files → Prop} {last : β → Files → Prop}

theorem Settles.of_ok (settles : task.Settles time files good post) {value : α} {after : Files}
    (done : task.runOn time files = (.ok value, after)) : good ∧ post value after := by
  unfold Settles at settles
  rw [done] at settles
  exact ⟨settles.1.2, settles.2⟩

theorem Settles.of_steady (settles : task.Settles time files good post)
    (steady : Program.Steady time task.run files) (holds : good) :
    ∃ value after, task.runOn time files = (.ok value, after) := by
  unfold Settles at settles
  split at settles
  · next value after done => exact ⟨value, after, done⟩
  · exact absurd ⟨steady, holds⟩ settles

/-- Where what it takes besides is the case, it is the operations that decide. -/
theorem Settles.achieves (settles : task.Settles time files good post) (holds : good) :
    task.Achieves time files post := by
  unfold Settles at settles
  unfold Achieves
  split
  · next value after done =>
    rw [done] at settles
    exact ⟨settles.1.1, settles.2⟩
  · next cause after failed =>
    rw [failed] at settles
    exact fun steady => settles ⟨steady, holds⟩

theorem Achieves.settles (achieves : task.Achieves time files post) (holds : good) :
    task.Settles time files good post := by
  unfold Achieves at achieves
  unfold Settles
  split
  · next value after done =>
    rw [done] at achieves
    exact ⟨⟨achieves.1, holds⟩, achieves.2⟩
  · next cause after failed =>
    rw [failed] at achieves
    exact fun both => achieves both.1

/-- A task that never succeeds where what it takes is not the case. -/
theorem settles_of_not (fails : ∀ value after, task.runOn time files ≠ (.ok value, after))
    (holds : ¬ good) : task.Settles time files good post := by
  unfold Settles
  split
  · next value after done => exact absurd done (fails value after)
  · exact fun both => holds both.2

theorem Settles.mono {weaker : α → Files → Prop} (settles : task.Settles time files good post)
    (implies : ∀ value after, good → post value after → weaker value after) :
    task.Settles time files good weaker := by
  unfold Settles at *
  split
  · next value after done =>
    rw [done] at settles
    exact ⟨settles.1, implies value after settles.1.2 settles.2⟩
  · next cause after failed =>
    rw [failed] at settles
    exact settles

/-- What follows starts from what the task leaves, and both must have what they take. -/
theorem Settles.bind (first : task.Settles time files good middle)
    (second : good → ∀ value after, middle value after →
      (next value).Settles time after more last) :
    (task >>= next).Settles time files (good ∧ more) last := by
  have steps : (task >>= next).run =
      Program.andThen (ExceptT.bindCont next) task.run := rfl
  unfold Settles runOn at first ⊢
  rw [steps, Program.run_andThen, Program.steady_andThen]
  generalize task.run.run time files = outcome at first
  obtain ⟨_ | value, after⟩ := outcome
  · exact fun all => first ⟨all.1.1, all.2.1⟩
  · have later := second first.1.2 value after first.2
    unfold Settles runOn at later
    have continued : ExceptT.bindCont next (.ok value) = (next value).run := rfl
    rw [continued]
    split
    · next result final done =>
      rw [done] at later
      exact ⟨⟨⟨first.1.1, later.1.1⟩, first.1.2, later.1.2⟩, later.2⟩
    · next cause final failed =>
      rw [failed] at later
      exact fun all => later ⟨all.1.2, all.2.2⟩

theorem Settles.congr (settles : task.Settles time files good post) (same : good ↔ more) :
    task.Settles time files more post := by
  rwa [← propext same]

theorem Achieves.bindSettles (first : task.Achieves time files middle)
    (second : ∀ value after, middle value after → (next value).Settles time after good last) :
    (task >>= next).Settles time files good last :=
  ((first.settles trivial).bind fun _ => second).congr (iff_of_eq (true_and good))

theorem Settles.bindAchieves (first : task.Settles time files good middle)
    (second : good → ∀ value after, middle value after → (next value).Achieves time after last) :
    (task >>= next).Settles time files good last :=
  (first.bind fun holds value after here => (second holds value after here).settles trivial).congr
    (iff_of_eq (and_true good))

/-- What follows a task starts from what the task achieves. -/
theorem Achieves.bind (first : task.Achieves time files middle)
    (second : ∀ value after, middle value after → (next value).Achieves time after last) :
    (task >>= next).Achieves time files last :=
  ((first.settles trivial).bindAchieves fun _ => second).achieves trivial

end

/-! ## Rules -/

theorem achieves_pure {value : α} {post : α → Files → Prop} (holds : post value files) :
    (pure value : FileTask α).Achieves time files post :=
  ⟨trivial, holds⟩

theorem Achieves.discard {task : FileTask α} {post : α → Files → Prop}
    (achieves : task.Achieves time files post) :
    (discard task).Achieves time files fun _ after => ∃ value, post value after :=
  achieves.bind fun value _ holds => achieves_pure ⟨value, holds⟩

theorem Settles.discard {task : FileTask α} {good : Prop} {post : α → Files → Prop}
    (settles : task.Settles time files good post) :
    (discard task).Settles time files good fun _ after => ∃ value, post value after :=
  settles.bindAchieves fun _ value _ holds => achieves_pure ⟨value, holds⟩

theorem achieves_change {path : String} {c : Files.Change} :
    (change path c).Achieves time files fun _ after => files.change c = .ok after := by
  cases changed : files.change c with
  | ok after =>
    have done : (change path c).runOn time files = (.ok (), after) := by
      simp only [runOn, change, ExceptT.run_mk, Program.run, changed, mapError_ok]
    have steady : Program.Steady time (change path c).run files := by
      simp only [change, ExceptT.run_mk, Program.Steady, changed]
    unfold Achieves
    rw [done]
    exact ⟨steady, rfl⟩
  | error fault =>
    have failed : (change path c).runOn time files = (.error (failure path fault), files) := by
      simp only [runOn, change, ExceptT.run_mk, Program.run, changed, mapError_error]
    have unsteady : ¬ Program.Steady time (change path c).run files := by
      simp only [change, ExceptT.run_mk, Program.Steady, changed, not_false_eq_true]
    unfold Achieves
    rw [failed]
    exact unsteady

theorem achieves_access {path : String} :
    (access path).Achieves time files fun node after =>
      files.openAt path = .ok node ∧ files = after := by
  cases opened : files.openAt path with
  | ok node =>
    have done : (access path).runOn time files = (.ok node, files) := by
      simp only [runOn, access, ExceptT.run_mk, Program.run, opened, mapError_ok]
    unfold Achieves
    rw [done]
    exact ⟨⟨⟨node, opened⟩, trivial⟩, rfl, rfl⟩
  | error fault =>
    have failed : (access path).runOn time files = (.error (failure path fault), files) := by
      simp only [runOn, access, ExceptT.run_mk, Program.run, opened, mapError_error]
    have unsteady : ¬ Program.Steady time (access path).run files := by
      rintro ⟨⟨node, found⟩, -⟩
      rw [opened] at found
      cases found
    unfold Achieves
    rw [failed]
    exact unsteady

theorem achieves_look {path : String} :
    (look path).Achieves time files fun kind after =>
      kind = Program.kindAt files path ∧ files = after :=
  ⟨trivial, rfl, rfl⟩

theorem achieves_survey {path : String} :
    (survey path).Achieves time files fun listed after =>
      listed = Program.pathsBelow files path ∧ files = after :=
  ⟨trivial, rfl, rfl⟩

theorem achieves_now :
    now.Achieves time files fun moment after => moment = time ∧ files = after :=
  ⟨trivial, rfl, rfl⟩

/-! ## Writing a file -/

theorem achieves_write {path : String} {place : Location} {content : Bytes}
    (leads : Files.Leads files.working path place) :
    (write path content).Achieves time files fun _ after =>
      after.get? place = some (.file content) ∧ Files.Overwrites (· = place) files after := by
  refine achieves_change.bind fun _ created changes => ?_
  obtain ⟨fresh, first⟩ := Files.create_ok leads changes
  refine achieves_change.mono fun _ after extended => ?_
  rw [← first.working] at leads
  obtain ⟨old, was, now, second⟩ := Files.extend_ok leads extended
  rw [fresh] at was
  cases was
  exact ⟨now, first.trans second⟩

/-! ## Removing a directory -/

/-- Names in a directory lead on from its place. -/
theorem leads_foldl_join (working : Location) {names : List String}
    (isName : ∀ name ∈ names, Path.IsName name) {path : String} {place : Location}
    (leads : Files.Leads working path place) (home : Files.home working path = place) :
    Files.Leads working (names.foldl Path.join path) (place ++ names) := by
  induction names generalizing path place with
  | nil => simpa using leads
  | cons name rest ih =>
    have first := isName name List.mem_cons_self
    have here := Files.leads_join working path first
    rw [home] at here
    have further := ih (fun other member => isName other (List.mem_cons_of_mem _ member)) here
      (by rw [Files.home_join first, home])
    rwa [List.append_assoc] at further

/-- What a survey lists lies below the place of its path. -/
theorem leads_of_mem_pathsBelow (proper : files.IsProper) {directory name : String}
    (isName : Path.IsName name) {listed : String × Kind}
    (member : listed ∈ Program.pathsBelow files (Path.join directory name)) :
    ∃ place, Files.Leads files.working listed.1 place ∧
      Files.home files.working directory ++ [name] <+: place := by
  unfold Program.pathsBelow at member
  split at member
  · next found located =>
    obtain rfl := (Files.leads_join files.working directory isName).located rfl located
    obtain ⟨⟨deeper, kind⟩, inside, rfl⟩ := List.mem_map.mp member
    rw [Files.below, List.mem_mergeSort] at inside
    obtain ⟨entry, kept, same⟩ := List.mem_map.mp inside
    obtain rfl : entry.1 = deeper := (Prod.mk.inj same).1
    obtain ⟨inTree, lies⟩ := List.mem_filter.mp kept
    rw [Bool.and_eq_true] at lies
    obtain ⟨names, split⟩ := List.isPrefixOf_iff_prefix.mp lies.1
    refine ⟨entry.1, ?_, names, split⟩
    have isNames : ∀ other ∈ names, Path.IsName other := fun other here =>
      proper.entries entry inTree other (split ▸ List.mem_append_right _ here)
    have further := leads_foldl_join files.working isNames
      (Files.leads_join files.working directory isName) (Files.home_join isName)
    have rest : entry.1.drop (Files.home files.working directory ++ [name]).length = names := by
      rw [← split, List.drop_left]
    simp only [rest]
    rwa [split] at further
  · exact absurd member List.not_mem_nil

theorem achieves_removeListed {root : String} {region : Location → Prop}
    {listed : List (String × Kind)}
    (leads : ∀ entry ∈ listed, ∃ place, Files.Leads files.working entry.1 place ∧ region place) :
    (removeListed root listed).Achieves time files
      fun _ after => Files.AgreesOff region files after := by
  induction listed generalizing files with
  | nil => exact achieves_pure (.refl _ _)
  | cons entry rest ih =>
    obtain ⟨path, kind⟩ := entry
    obtain ⟨place, here, within⟩ := leads _ List.mem_cons_self
    have further : ∀ after, Files.AgreesOff region files after →
        (removeListed root rest).Achieves time after
          fun _ last => Files.AgreesOff region files last := by
      intro after agrees
      refine (ih fun other member => ?_).mono fun _ last late => agrees.trans late
      rw [agrees.working]
      exact leads other (List.mem_cons_of_mem _ member)
    cases kind with
    | file =>
      refine achieves_change.bind fun _ after removed => further after ?_
      exact (Files.removeFile_ok here removed).2.toAgreesOff.mono fun _ same => same ▸ within
    | directory =>
      refine achieves_change.bind fun _ after removed => further after ?_
      exact (Files.removeDirectory_ok here removed).2.mono fun _ same => same ▸ within

/-- Removing a directory that can be reached takes it away, and changes nothing but the directory
and what lies below. -/
theorem achieves_removeTree (proper : files.IsProper) {directory name : String}
    (isName : Path.IsName name)
    (there : Program.kindAt files (Path.join directory name) = some .directory) :
    (removeTree (Path.join directory name)).Achieves time files fun _ after =>
      after.get? (Files.home files.working directory ++ [name]) = none ∧
        Files.AgreesOff (Files.home files.working directory ++ [name] <+: ·) files after := by
  refine achieves_look.bind ?_
  rintro _ _ ⟨rfl, rfl⟩
  rw [there]
  refine achieves_survey.bind ?_
  rintro _ _ ⟨rfl, rfl⟩
  refine (achieves_removeListed fun listed member =>
    leads_of_mem_pathsBelow proper isName member).bind fun _ after below => ?_
  refine achieves_change.mono fun _ last removed => ?_
  have leads := Files.leads_join after.working directory isName
  obtain ⟨gone, agrees⟩ := Files.removeDirectory_ok leads removed
  rw [below.working] at gone agrees
  refine ⟨gone, below.trans (agrees.mono fun place same => ?_)⟩
  rewrite [same]
  exact List.prefix_refl _

/-! ## Tasks that come to no failing operation -/

/-- Where no operation fails, none does before a task that follows, and none after. -/
theorem steady_of_bind {task : FileTask α} {next : α → FileTask β}
    (steady : Program.Steady time (task >>= next).run files) :
    Program.Steady time task.run files ∧ ∀ {value after},
      task.runOn time files = (.ok value, after) →
        Program.Steady time (next value).run after := by
  have steps : (task >>= next).run =
      Program.andThen (ExceptT.bindCont next) task.run := rfl
  rw [steps, Program.steady_andThen] at steady
  refine ⟨steady.1, fun {value after} done => ?_⟩
  unfold runOn at done
  rw [done] at steady
  exact steady.2

theorem working_of_runOn {task : FileTask α} {outcome : Except Error α} {after : Files}
    (ran : task.runOn time files = (outcome, after)) : after.working = files.working := by
  have same : (task.run.run time files).2 = after := congrArg Prod.snd ran
  rw [← same]
  exact Program.run_working time task.run files

theorem isProper_of_runOn {task : FileTask α} {outcome : Except Error α} {after : Files}
    (ran : task.runOn time files = (outcome, after)) (proper : files.IsProper) : after.IsProper := by
  have same : (task.run.run time files).2 = after := congrArg Prod.snd ran
  rw [← same]
  exact Program.run_isProper time task.run proper

/-! ## Tasks that have succeeded -/

/-- A task that has succeeded after another one started where that one left off. -/
theorem runOn_bind_ok {task : FileTask α} {next : α → FileTask β} {result : β} {last : Files}
    (done : (task >>= next).runOn time files = (.ok result, last)) :
    ∃ value after, task.runOn time files = (.ok value, after) ∧
      (next value).runOn time after = (.ok result, last) := by
  have steps : (task >>= next).run =
      Program.andThen (ExceptT.bindCont next) task.run := rfl
  unfold runOn at done ⊢
  rw [steps, Program.run_andThen] at done
  generalize task.run.run time files = outcome at done
  obtain ⟨cause | value, after⟩ := outcome
  · cases done
  · exact ⟨value, after, rfl, done⟩

/-- What follows a task that has succeeded is run where that one left off. -/
theorem runOn_bind_of_ok {task : FileTask α} {value : α} {after : Files}
    (done : task.runOn time files = (.ok value, after)) (next : α → FileTask β) :
    (task >>= next).runOn time files = (next value).runOn time after := by
  have steps : (task >>= next).run =
      Program.andThen (ExceptT.bindCont next) task.run := rfl
  unfold runOn at done ⊢
  rw [steps, Program.run_andThen, done]
  rfl

/-- A task that fails makes what follows it fail. -/
theorem runOn_bind_of_error {task : FileTask α} {cause : Error} {after : Files}
    (failed : task.runOn time files = (.error cause, after)) (next : α → FileTask β) :
    (task >>= next).runOn time files = (.error cause, after) := by
  have steps : (task >>= next).run =
      Program.andThen (ExceptT.bindCont next) task.run := rfl
  unfold runOn at failed ⊢
  rw [steps, Program.run_andThen, failed]
  rfl

/-- What can be opened is opened. -/
theorem runOn_access {path : String} {node : Node} (opened : files.openAt path = .ok node) :
    (access path).runOn time files = (.ok node, files) := by
  change ((files.openAt path).mapError (failure path), files) = _
  rw [opened]
  rfl

/-- A change that can be made is made. -/
theorem runOn_change {path : String} {c : Files.Change} {after : Files}
    (changes : files.change c = .ok after) :
    (change path c).runOn time files = (.ok (), after) := by
  simp only [runOn, change, ExceptT.run_mk, Program.run, changes, mapError_ok]

/-- The bytes of a file that is there are read. -/
theorem runOn_readBytes {path : String} {content : Bytes}
    (there : files.openAt path = .ok (.file content)) :
    (readBytes path).runOn time files = (.ok content, files) := by
  rw [readBytes, runOn_bind_of_ok (runOn_access there)]
  rfl

end FileTask

end TreeExport

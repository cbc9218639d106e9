import TreeExport.Proofs.Files.Tasks

/-!
# Where programs break off

A program can be stopped for good before any of its operations and after the last one, and an
extension of a file can be cut short.  `Program.BreaksOff` says which changes have been made then and
which tree is left behind.  What holds wherever a task breaks off is said by `FileTask.Throughout`,
which goes from task to task by the rule for `>>=`, as `FileTask.Achieves` does.
-/

namespace TreeExport

namespace Files

/-- A change, or a part of it that may be all that is done of it. -/
inductive Change.PartOf : Change → Change → Prop
  | whole (c : Change) : PartOf c c
  | cut {path : String} {part bytes : Bytes} (front : part <+: bytes) :
      PartOf (.extend path part) (.extend path bytes)

end Files

namespace Program

variable {α β : Type} {time : Moment}

/-- The program can break off on a file tree, with some changes made and a tree left behind. -/
inductive BreaksOff (time : Moment) : Program α → Files → List Files.Change → Files → Prop
  | here (program : Program α) (files : Files) : BreaksOff time program files [] files
  | look {path : String} {k : Option Kind → Program α} {files left : Files}
      {made : List Files.Change} (later : BreaksOff time (k (kindAt files path)) files made left) :
      BreaksOff time (.look path k) files made left
  | access {path : String} {k : Except Fault Node → Program α} {files left : Files}
      {made : List Files.Change} (later : BreaksOff time (k (files.openAt path)) files made left) :
      BreaksOff time (.access path k) files made left
  | survey {path : String} {k : List (String × Kind) → Program α} {files left : Files}
      {made : List Files.Change} (later : BreaksOff time (k (pathsBelow files path)) files made left) :
      BreaksOff time (.survey path k) files made left
  | changed {c : Files.Change} {k : Except Fault Unit → Program α} {files next left : Files}
      {made : List Files.Change} (changes : files.change c = .ok next)
      (later : BreaksOff time (k (.ok ())) next made left) :
      BreaksOff time (.change c k) files (c :: made) left
  | failed {c : Files.Change} {k : Except Fault Unit → Program α} {files left : Files}
      {made : List Files.Change} {fault : Fault} (fails : files.change c = .error fault)
      (later : BreaksOff time (k (.error fault)) files made left) :
      BreaksOff time (.change c k) files made left
  | cutShort {path : String} {part bytes : Bytes} {k : Except Fault Unit → Program α}
      {files left : Files} (front : part <+: bytes)
      (changes : files.change (.extend path part) = .ok left) :
      BreaksOff time (.change (.extend path bytes) k) files [] left
  | now {k : Moment → Program α} {files left : Files} {made : List Files.Change}
      (later : BreaksOff time (k time) files made left) : BreaksOff time (.now k) files made left

/-- The changes that a program makes that is not stopped. -/
def changes (time : Moment) : Program α → Files → List Files.Change
  | done _, _ => []
  | look path k, files => changes time (k (kindAt files path)) files
  | access path k, files => changes time (k (files.openAt path)) files
  | survey path k, files => changes time (k (pathsBelow files path)) files
  | change c k, files =>
    match files.change c with
    | .ok changed => c :: changes time (k (.ok ())) changed
    | .error fault => changes time (k (.error fault)) files
  | now k, files => changes time (k time) files

/-- The program can break off when it is done. -/
theorem breaksOff_run (time : Moment) (program : Program α) (files : Files) :
    BreaksOff time program files (program.changes time files) (program.run time files).2 := by
  induction program generalizing files with
  | done value => exact .here _ _
  | look path k ih => exact .look (ih _ files)
  | access path k ih => exact .access (ih _ files)
  | survey path k ih => exact .survey (ih _ files)
  | change c k ih =>
    rw [changes, run]
    cases outcome : files.change c with
    | ok changed => exact .changed outcome (ih _ changed)
    | error fault => exact .failed outcome (ih _ files)
  | now k ih => exact .now (ih _ files)

/-- The program can break off at every tree that it passes through. -/
theorem breaksOff_of_mem_trail {program : Program α} {files left : Files}
    (member : left ∈ program.trail time files) : ∃ made, BreaksOff time program files made left := by
  induction program generalizing files with
  | done value =>
    obtain rfl := List.mem_singleton.mp member
    exact ⟨[], .here _ _⟩
  | look path k ih => exact (ih _ member).imp fun _ => .look
  | access path k ih => exact (ih _ member).imp fun _ => .access
  | survey path k ih => exact (ih _ member).imp fun _ => .survey
  | change c k ih =>
    rw [trail] at member
    cases outcome : files.change c with
    | ok changed =>
      simp only [outcome, List.mem_cons] at member
      rcases member with rfl | later
      · exact ⟨[], .here _ _⟩
      · obtain ⟨made, breaks⟩ := ih _ later
        exact ⟨c :: made, .changed outcome breaks⟩
    | error fault =>
      simp only [outcome] at member
      obtain ⟨made, breaks⟩ := ih _ member
      exact ⟨made, .failed outcome breaks⟩
  | now k ih => exact (ih _ member).imp fun _ => .now

/-- One program after the other breaks off in the first, or else in the second after all of the
first. -/
theorem breaksOff_andThen {next : α → Program β} {program : Program α} {files left : Files}
    {made : List Files.Change} (breaks : BreaksOff time (program.andThen next) files made left) :
    BreaksOff time program files made left ∨
      ∃ late, made = program.changes time files ++ late ∧
        BreaksOff time (next (program.run time files).1) (program.run time files).2 late left := by
  induction program generalizing files made with
  | done value => exact .inr ⟨made, rfl, breaks⟩
  | look path k ih =>
    cases breaks with
    | here => exact .inl (.here _ _)
    | look later => exact (ih _ later).imp_left .look
  | access path k ih =>
    cases breaks with
    | here => exact .inl (.here _ _)
    | access later => exact (ih _ later).imp_left .access
  | survey path k ih =>
    cases breaks with
    | here => exact .inl (.here _ _)
    | survey later => exact (ih _ later).imp_left .survey
  | change c k ih =>
    cases breaks with
    | here => exact .inl (.here _ _)
    | changed outcome later =>
      simp only [changes, run, outcome]
      rcases ih _ later with first | ⟨late, rfl, second⟩
      · exact .inl (.changed outcome first)
      · exact .inr ⟨late, rfl, second⟩
    | failed outcome later =>
      simp only [changes, run, outcome]
      exact (ih _ later).imp_left (.failed outcome)
    | cutShort front cut => exact .inl (.cutShort front cut)
  | now k ih =>
    cases breaks with
    | here => exact .inl (.here _ _)
    | now later => exact (ih _ later).imp_left .now

/-- What every change keeps that the program may come to, and every part of such a change, holds
wherever the program breaks off. -/
theorem Only.breaksOff {allowed : Files.Change → Prop} {held : Files → Prop}
    (keeps : ∀ {files changed : Files} {part c : Files.Change}, allowed c → part.PartOf c →
      files.change part = .ok changed → held files → held changed)
    {program : Program α} (only : program.Only allowed) {files left : Files}
    {made : List Files.Change} (holds : held files)
    (breaks : BreaksOff time program files made left) : held left := by
  induction breaks with
  | here => exact holds
  | look later ih => exact ih (only _) holds
  | access later ih => exact ih (only _) holds
  | survey later ih => exact ih (only _) holds
  | changed changes later ih => exact ih (only.2 _) (keeps only.1 (.whole _) changes holds)
  | failed fails later ih => exact ih (only.2 _) holds
  | cutShort front changes => exact keeps only.1 (.cut front) changes holds
  | now later ih => exact ih (only _) holds

/-- Every change that has been made is one that the program may come to. -/
theorem Only.made {allowed : Files.Change → Prop} {program : Program α}
    (only : program.Only allowed) {files left : Files} {made : List Files.Change}
    (breaks : BreaksOff time program files made left) : ∀ c ∈ made, allowed c := by
  induction breaks with
  | here => exact fun _ none => absurd none List.not_mem_nil
  | look later ih => exact ih (only _)
  | access later ih => exact ih (only _)
  | survey later ih => exact ih (only _)
  | changed changes later ih =>
    intro c member
    rcases List.mem_cons.mp member with rfl | later
    · exact only.1
    · exact ih (only.2 _) c later
  | failed fails later ih => exact ih (only.2 _)
  | cutShort => exact fun _ none => absurd none List.not_mem_nil
  | now later ih => exact ih (only _)

theorem Only.mono {allowed more : Files.Change → Prop} {program : Program α}
    (only : program.Only allowed) (within : ∀ c, allowed c → more c) : program.Only more := by
  induction program with
  | done value => trivial
  | look path k ih => exact fun answer => ih answer (only answer)
  | access path k ih => exact fun answer => ih answer (only answer)
  | survey path k ih => exact fun answer => ih answer (only answer)
  | change c k ih => exact ⟨within c only.1, fun answer => ih answer (only.2 answer)⟩
  | now k ih => exact fun answer => ih answer (only answer)

end Program

namespace FileTask

variable {α β : Type} {time : Moment} {files : Files} {allowed : Files.Change → Prop}
  {held : Files → Prop}

/-! ## Tasks that come to some changes only -/

/-- Every change that the task may come to is one of some. -/
def Only (allowed : Files.Change → Prop) (task : FileTask α) : Prop :=
  Program.Only allowed task.run

theorem only_pure (value : α) : (pure value : FileTask α).Only allowed :=
  trivial

theorem only_throw (cause : Error) : (throw cause : FileTask α).Only allowed :=
  trivial

theorem Only.bind {task : FileTask α} {next : α → FileTask β} (first : task.Only allowed)
    (second : ∀ value, (next value).Only allowed) : (task >>= next).Only allowed := by
  refine Program.Only.andThen first fun outcome => ?_
  cases outcome with
  | error cause => trivial
  | ok value => exact second value

theorem Only.mono {task : FileTask α} {more : Files.Change → Prop} (only : task.Only allowed)
    (within : ∀ c, allowed c → more c) : task.Only more :=
  Program.Only.mono only within

theorem only_look (path : String) : (look path).Only allowed :=
  fun _ => trivial

theorem only_access (path : String) : (access path).Only allowed :=
  fun _ => trivial

theorem only_survey (path : String) : (survey path).Only allowed :=
  fun _ => trivial

theorem only_now : now.Only allowed :=
  fun _ => trivial

theorem only_change {path : String} {c : Files.Change} (allows : allowed c) :
    (change path c).Only allowed :=
  ⟨allows, fun _ => trivial⟩

theorem only_attempt {c : Files.Change} (allows : allowed c) : (attempt c).Only allowed :=
  ⟨allows, fun _ => trivial⟩

theorem only_removeListed (root : String) (listed : List (String × Kind)) :
    (removeListed root listed).Only Files.Change.WritesNoFile := by
  induction listed with
  | nil => exact only_pure _
  | cons entry rest ih =>
    obtain ⟨path, kind⟩ := entry
    cases kind with
    | file => exact (only_change trivial).bind fun _ => ih
    | directory => exact (only_change trivial).bind fun _ => ih

theorem only_removeTree (path : String) :
    (removeTree path).Only Files.Change.WritesNoFile := by
  refine (only_look path).bind fun kind => ?_
  cases kind with
  | none => exact only_throw _
  | some kind =>
    cases kind with
    | file => exact only_throw _
    | directory =>
      exact (only_survey path).bind fun listed =>
        (only_removeListed path listed).bind fun _ => only_change trivial

theorem only_settle (target path : String) (answer : Option Fault) :
    (settle target path answer).Only Files.Change.WritesNoFile := by
  cases answer with
  | none => exact only_pure _
  | some fault =>
    refine (only_look path).bind fun kind => ?_
    split
    · exact only_throw _
    · exact only_pure _

theorem only_makeOutward (target : String) (paths : List String) :
    (makeOutward target paths).Only Files.Change.WritesNoFile := by
  induction paths with
  | nil => exact only_pure _
  | cons path around ih =>
    refine (only_attempt trivial).bind fun answer => ?_
    split
    · exact ih.bind fun _ => (only_attempt trivial).bind fun again => only_settle target path again
    · exact only_settle target path _

theorem only_makeDirectories (path : String) :
    (makeDirectories path).Only Files.Change.WritesNoFile := by
  unfold makeDirectories
  split
  · exact only_makeOutward path _
  · exact only_pure _

/-! ## What holds throughout a task -/

/-- Wherever the task breaks off, something holds of the tree that is left. -/
def Throughout (time : Moment) (task : FileTask α) (files : Files) (held : Files → Prop) : Prop :=
  ∀ made left, Program.BreaksOff time task.run files made left → held left

theorem Throughout.mono {task : FileTask α} {more : Files → Prop}
    (throughout : task.Throughout time files held) (within : ∀ left, held left → more left) :
    task.Throughout time files more :=
  fun made left breaks => within left (throughout made left breaks)

theorem Throughout.and {task : FileTask α} {more : Files → Prop}
    (first : task.Throughout time files held) (second : task.Throughout time files more) :
    task.Throughout time files fun left => held left ∧ more left :=
  fun made left breaks => ⟨first made left breaks, second made left breaks⟩

/-- It holds at the start. -/
theorem Throughout.start {task : FileTask α} (throughout : task.Throughout time files held) :
    held files :=
  throughout [] files (.here _ _)

/-- It holds at the end. -/
theorem Throughout.last {task : FileTask α} (throughout : task.Throughout time files held)
    {outcome : Except Error α} {after : Files} (ran : task.runOn time files = (outcome, after)) :
    held after := by
  have ends := throughout _ _ (Program.breaksOff_run time task.run files)
  have last : (task.run.run time files).2 = after := congrArg Prod.snd ran
  rwa [last] at ends

/-- A task with another one after it breaks off in the first, or else in the second where the first
has succeeded. -/
theorem breaksOff_bind {task : FileTask α} {next : α → FileTask β} {made : List Files.Change}
    {left : Files} (breaks : Program.BreaksOff time (task >>= next).run files made left) :
    Program.BreaksOff time task.run files made left ∨
      ∃ value after late, task.runOn time files = (.ok value, after) ∧
        made = task.run.changes time files ++ late ∧
        Program.BreaksOff time (next value).run after late left := by
  have steps : (task >>= next).run =
      Program.andThen (ExceptT.bindCont next) task.run := rfl
  rw [steps] at breaks
  rcases Program.breaksOff_andThen breaks with first | ⟨late, rfl, second⟩
  · exact .inl first
  · have ends := Program.breaksOff_run time task.run files
    unfold runOn
    generalize task.run.run time files = outcome at ends second
    obtain ⟨cause | value, after⟩ := outcome
    · -- a task that has failed makes no changes more
      cases second
      rw [List.append_nil]
      exact .inl ends
    · exact .inr ⟨value, after, late, rfl, rfl, second⟩

theorem Throughout.bind {task : FileTask α} {next : α → FileTask β}
    (first : task.Throughout time files held)
    (second : ∀ value after, task.runOn time files = (.ok value, after) →
      (next value).Throughout time after held) : (task >>= next).Throughout time files held := by
  intro made left breaks
  rcases breaksOff_bind breaks with early | ⟨value, after, late, done, -, later⟩
  · exact first made left early
  · exact second value after done late left later

theorem throughout_pure {value : α} (holds : held files) :
    (pure value : FileTask α).Throughout time files held := by
  intro made left breaks
  cases breaks
  exact holds

theorem throughout_throw {cause : Error} (holds : held files) :
    (throw cause : FileTask α).Throughout time files held := by
  intro made left breaks
  cases breaks
  exact holds

/-- What a change keeps, and every part of it, holds throughout. -/
theorem throughout_change {path : String} {c : Files.Change} (holds : held files)
    (keeps : ∀ part changed, part.PartOf c → files.change part = .ok changed → held changed) :
    (change path c).Throughout time files held := by
  intro made left breaks
  cases breaks with
  | here => exact holds
  | changed changes later =>
    cases later
    exact keeps c _ (.whole c) changes
  | failed fails later =>
    cases later
    exact holds
  | cutShort front changes => exact keeps _ _ (.cut front) changes

theorem throughout_attempt {c : Files.Change} (holds : held files)
    (keeps : ∀ part changed, part.PartOf c → files.change part = .ok changed → held changed) :
    (attempt c).Throughout time files held := by
  intro made left breaks
  cases breaks with
  | here => exact holds
  | changed changes later =>
    cases later
    exact keeps c _ (.whole c) changes
  | failed fails later =>
    cases later
    exact holds
  | cutShort front changes => exact keeps _ _ (.cut front) changes

/-- What every change keeps that the task may come to, and every part of it, holds throughout. -/
theorem Only.throughout {task : FileTask α} (only : task.Only allowed)
    (keeps : ∀ {files changed : Files} {part c : Files.Change}, allowed c → part.PartOf c →
      files.change part = .ok changed → held files → held changed) (holds : held files) :
    task.Throughout time files held :=
  fun _ _ breaks => Program.Only.breaksOff keeps only holds breaks

/-- What no change can end holds throughout every task. -/
theorem throughout_of_change {task : FileTask α}
    (keeps : ∀ {files changed : Files} {c : Files.Change}, files.change c = .ok changed →
      held files → held changed) (holds : held files) : task.Throughout time files held :=
  Only.throughout (Program.only_true task.run) (fun _ _ changes => keeps changes) holds

/-- A task that makes no change holds on to what there is. -/
theorem Only.unchanged {task : FileTask α} (only : task.Only fun _ => False) :
    task.Throughout time files (· = files) :=
  only.throughout (fun none => none.elim) rfl

/-! ## Tasks that fail -/

/-- The task fails, and wherever it breaks off, nothing has been changed. -/
structure Fails (time : Moment) (task : FileTask α) (files : Files) : Prop where
  throughout : task.Throughout time files (· = files)
  failed : ∀ value after, task.runOn time files ≠ (.ok value, after)

theorem Fails.bind {task : FileTask α} (fails : task.Fails time files) (next : α → FileTask β) :
    (task >>= next).Fails time files := by
  refine ⟨fails.throughout.bind fun value after done => absurd done (fails.failed value after),
    fun value after done => ?_⟩
  obtain ⟨_, middle, first, -⟩ := runOn_bind_ok done
  exact fails.failed _ _ first

theorem fails_change {path : String} {c : Files.Change}
    (cannot : ∀ part changed, part.PartOf c → files.change part ≠ .ok changed) :
    (change path c).Fails time files := by
  refine ⟨throughout_change rfl fun part changed partly changes =>
    absurd changes (cannot part changed partly), fun value after done => ?_⟩
  exact cannot c after (.whole c) (achieves_change.of_ok done)

theorem fails_access {path : String} (cannot : ∀ node, files.openAt path ≠ .ok node) :
    (access path).Fails time files := by
  refine ⟨Only.unchanged (only_access path), fun value after done => ?_⟩
  exact cannot value (achieves_access.of_ok done).1

/-! ## Tasks that are done -/

/-- The task is done, and what it yields and leaves behind is as is said; wherever it breaks off,
something else holds of the tree that is left. -/
structure Completes (time : Moment) (task : FileTask α) (files : Files) (held : Files → Prop)
    (post : α → Files → Prop) : Prop where
  throughout : task.Throughout time files held
  done : ∃ value after, task.runOn time files = (.ok value, after) ∧ post value after

theorem Completes.bind {task : FileTask α} {next : α → FileTask β} {middle : α → Files → Prop}
    {last : β → Files → Prop} (first : task.Completes time files held middle)
    (second : ∀ value after, middle value after → (next value).Completes time after held last) :
    (task >>= next).Completes time files held last := by
  obtain ⟨value, after, ran, here⟩ := first.done
  constructor
  · refine first.throughout.bind fun other left done => ?_
    cases ran.symm.trans done
    exact (second value after here).throughout
  · rw [runOn_bind_of_ok ran]
    exact (second value after here).done

theorem Completes.of_ok {task : FileTask α} {post : α → Files → Prop}
    (completes : task.Completes time files held post) {value : α} {after : Files}
    (ran : task.runOn time files = (.ok value, after)) : post value after := by
  obtain ⟨other, last, done, here⟩ := completes.done
  cases ran.symm.trans done
  exact here

theorem Completes.mono {task : FileTask α} {post weaker : α → Files → Prop}
    (completes : task.Completes time files held post)
    (implies : ∀ value after, post value after → weaker value after) :
    task.Completes time files held weaker := by
  obtain ⟨value, after, ran, here⟩ := completes.done
  exact ⟨completes.throughout, value, after, ran, implies value after here⟩

theorem Completes.holding {task : FileTask α} {more : Files → Prop} {post : α → Files → Prop}
    (completes : task.Completes time files held post)
    (implies : ∀ left, held left → more left) : task.Completes time files more post :=
  ⟨completes.throughout.mono implies, completes.done⟩

/-- What no change can end is kept by a task that is done. -/
theorem Completes.keeping {task : FileTask α} {post : α → Files → Prop} {kept : Files → Prop}
    (completes : task.Completes time files held post)
    (keeps : ∀ {files changed : Files} {c : Files.Change}, files.change c = .ok changed →
      kept files → kept changed) (holds : kept files) :
    task.Completes time files (fun left => held left ∧ kept left)
      fun value after => post value after ∧ kept after := by
  obtain ⟨value, after, ran, here⟩ := completes.done
  have throughout : task.Throughout time files kept := throughout_of_change keeps holds
  exact ⟨completes.throughout.and throughout, value, after, ran, here, throughout.last ran⟩

theorem completes_pure {value : α} {post : α → Files → Prop} (holds : held files)
    (here : post value files) : (pure value : FileTask α).Completes time files held post :=
  ⟨throughout_pure holds, value, files, rfl, here⟩

theorem completes_look {path : String} (holds : held files) :
    (look path).Completes time files held fun kind after =>
      kind = Program.kindAt files path ∧ files = after :=
  ⟨(Only.unchanged (only_look path)).mono fun _ same => same ▸ holds, _, _, rfl, rfl, rfl⟩

theorem completes_survey {path : String} (holds : held files) :
    (survey path).Completes time files held fun listed after =>
      listed = Program.pathsBelow files path ∧ files = after :=
  ⟨(Only.unchanged (only_survey path)).mono fun _ same => same ▸ holds, _, _, rfl, rfl, rfl⟩

/-- A change that can be made, and only as a whole. -/
theorem completes_change {path : String} {c : Files.Change} {changed : Files} (holds : held files)
    (changes : files.change c = .ok changed) (uncut : ∀ part : Files.Change, part.PartOf c → part = c)
    (after : held changed) :
    (change path c).Completes time files held fun _ last => last = changed := by
  refine ⟨throughout_change holds fun part left partly made => ?_, (), changed,
    runOn_change changes, rfl⟩
  cases uncut part partly
  cases changes.symm.trans made
  exact after

end FileTask

end TreeExport

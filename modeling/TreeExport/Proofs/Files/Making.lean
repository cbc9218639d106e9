import TreeExport.Proofs.Files.Breaks

/-!
# Making directories

A directory is made after those around it that are missing.  If a tree lacks nothing but directories
for a directory to be there (`Files.Grows`), making it succeeds, and wherever that breaks off the tree
still lacks nothing but directories (`FileTask.completes_makeDirectories`).
-/

namespace TreeExport

namespace Path

/-! ## The fronts of a path -/

theorem splitAtEach_eq_splitOn (separator : Char) (cs : List Char) :
    splitAtEach separator cs = cs.splitOn separator := by
  induction cs with
  | nil => simp [splitAtEach]
  | cons c rest ih =>
    rw [splitAtEach, List.splitOn_cons_eq_if_modifyHead, ← ih]
    by_cases same : c = separator
    · simp [same]
    · cases pieces : splitAtEach separator rest with
      | nil => exact absurd pieces (splitAtEach_ne_nil separator rest)
      | cons first more => simp [same]

theorem intercalate_take_prefix (separator : List Char) (pieces : List (List Char)) (count : Nat) :
    separator.intercalate (pieces.take count) <+: separator.intercalate pieces := by
  induction pieces generalizing count with
  | nil => simp
  | cons piece rest ih =>
    cases count with
    | zero => exact List.nil_prefix
    | succ count =>
      rw [List.take_succ_cons]
      have later := ih count
      cases rest with
      | nil => simp
      | cons next more =>
        cases count with
        | zero =>
          rw [List.take_zero, List.intercalate_singleton, List.intercalate_cons_cons,
            List.append_assoc]
          exact List.prefix_append _ _
        | succ count =>
          rw [List.take_succ_cons] at later ⊢
          rw [List.intercalate_cons_cons, List.intercalate_cons_cons]
          exact (List.prefix_append_right_inj _).mpr later

/-- The path of the first pieces of a path. -/
def front (path : String) (count : Nat) : String :=
  String.ofList (['/'].intercalate ((splitAtEach '/' path.toList).take count))

/-- A piece of the path leads on, out of the directory that it starts in. -/
def leadsOn (path : String) (index : Nat) : Bool :=
  ((splitAtEach '/' path.toList)[index]?).any fun piece => piece ≠ [] ∧ piece ≠ ['.']

/-- The fronts of a path of up to so many pieces, the longest first, that end with a piece which leads
on. -/
def fronts (path : String) (count : Nat) : List String :=
  ((List.range count).filter (leadsOn path)).reverse.map fun index => front path (index + 1)

variable {path : String} {index : Nat}

theorem fronts_of_leadsOn (leads : leadsOn path index = true) :
    fronts path (index + 1) = front path (index + 1) :: fronts path index := by
  simp [fronts, List.range_succ, leads]

theorem fronts_of_not_leadsOn (stays : leadsOn path index = false) :
    fronts path (index + 1) = fronts path index := by
  simp [fronts, List.range_succ, stays]

theorem front_length (path : String) : front path (splitAtEach '/' path.toList).length = path := by
  rw [front, List.take_length, splitAtEach_eq_splitOn, List.intercalate_splitOn, String.ofList_toList]

theorem length_steps (path : String) : (steps path).length = (splitAtEach '/' path.toList).length :=
  List.length_map _

theorem toList_front_prefix (path : String) (count : Nat) :
    (front path count).toList <+: path.toList := by
  have whole := congrArg String.toList (front_length path)
  rw [front, List.take_length, String.toList_ofList] at whole
  have start : (front path count).toList <+: ['/'].intercalate (splitAtEach '/' path.toList) := by
    rw [front, String.toList_ofList]
    exact intercalate_take_prefix _ _ count
  rwa [whole] at start

/-- The piece at an index that leads on. -/
theorem exists_piece (leads : leadsOn path index = true) :
    ∃ inside : index < (splitAtEach '/' path.toList).length,
      (splitAtEach '/' path.toList)[index] ≠ [] ∧ (splitAtEach '/' path.toList)[index] ≠ ['.'] := by
  rw [leadsOn, Option.any_eq_true] at leads
  obtain ⟨piece, found, named⟩ := leads
  obtain ⟨inside, rfl⟩ := List.getElem?_eq_some_iff.mp found
  exact ⟨inside, of_decide_eq_true named⟩

theorem getElem_steps_of_leadsOn (leads : leadsOn path index = true)
    (inside : index < (steps path).length) : (steps path)[index] ≠ .stay := by
  obtain ⟨_, notEmpty, notDot⟩ := exists_piece leads
  simp only [steps, List.getElem_map, Step.ofPiece]
  rw [if_neg (not_or.mpr ⟨notEmpty, notDot⟩)]
  split <;> exact Step.noConfusion

theorem getElem_steps_of_not_leadsOn (stays : leadsOn path index = false)
    (inside : index < (steps path).length) : (steps path)[index] = .stay := by
  have inPieces : index < (splitAtEach '/' path.toList).length := by rwa [← length_steps]
  rw [leadsOn, List.getElem?_eq_getElem inPieces, Option.any_some, decide_eq_false_iff_not,
    Classical.not_and_iff_not_or_not, Classical.not_not, Classical.not_not] at stays
  simp only [steps, List.getElem_map, Step.ofPiece]
  rw [if_pos stays]

theorem splitAtEach_front (leads : leadsOn path index = true) :
    splitAtEach '/' (front path (index + 1)).toList =
      (splitAtEach '/' path.toList).take (index + 1) := by
  obtain ⟨inside, -⟩ := exists_piece leads
  rw [splitAtEach_eq_splitOn, front, String.toList_ofList, List.splitOn_intercalate]
  · exact fun piece member => notMem_of_mem_splitAtEach (List.mem_of_mem_take member)
  · rw [ne_eq, List.take_eq_nil_iff, not_or]
    exact ⟨Nat.succ_ne_zero _, splitAtEach_ne_nil _ _⟩

theorem steps_front (leads : leadsOn path index = true) :
    steps (front path (index + 1)) = (steps path).take (index + 1) := by
  rw [steps, splitAtEach_front leads, List.map_take, steps]

/-- The front does not end with a slash, since its last piece is not empty. -/
theorem getLast?_front (leads : leadsOn path index = true) :
    (front path (index + 1)).toList.getLast? ≠ some '/' := by
  intro slash
  obtain ⟨inside, notEmpty, -⟩ := exists_piece leads
  obtain ⟨start, split⟩ := List.getLast?_eq_some_iff.mp slash
  have pieces := splitAtEach_front leads
  rw [split, splitAtEach_append_cons, splitAtEach, List.take_succ_eq_append_getElem inside] at pieces
  exact notEmpty (List.singleton_inj.mp (List.append_inj_right' pieces rfl)).symm

theorem toList_front_ne_nil (leads : leadsOn path index = true) :
    (front path (index + 1)).toList ≠ [] := by
  intro empty
  obtain ⟨inside, notEmpty, -⟩ := exists_piece leads
  have pieces := splitAtEach_front leads
  rw [empty, splitAtEach, List.take_succ_eq_append_getElem inside, ← List.nil_append [[]]] at pieces
  exact notEmpty (List.singleton_inj.mp (List.append_inj_right' pieces rfl)).symm

theorem isRooted_front (leads : leadsOn path index = true) :
    isRooted (front path (index + 1)) = isRooted path := by
  obtain ⟨rest, split⟩ := toList_front_prefix path (index + 1)
  rw [isRooted, isRooted, ← split, List.head?_append,
    List.head?_eq_some_head (toList_front_ne_nil leads), Option.some_or]

theorem fault?_eq_none_iff {path : String} : fault? path = none ↔
    '\x00' ∉ path.toList ∧ path.toList ≠ [] ∧ path.utf8ByteSize ≤ maxBytes := by
  have empty : path.isEmpty = true ↔ path.toList = [] := by
    rw [String.isEmpty_iff, String.toList_eq_nil_iff]
  unfold fault?
  split
  · next marked => simp_all
  · split
    · next nothing => simp_all
    · split
      · next long => simp [Nat.not_le.mpr long]
      · next short => simp_all

/-- A front of a path is no worse than the path. -/
theorem fault?_front (leads : leadsOn path index = true) (noFault : fault? path = none) :
    fault? (front path (index + 1)) = none := by
  obtain ⟨noEnd, -, short⟩ := fault?_eq_none_iff.mp noFault
  obtain ⟨rest, split⟩ := toList_front_prefix path (index + 1)
  refine fault?_eq_none_iff.mpr ⟨fun marked => ?_, toList_front_ne_nil leads, ?_⟩
  · exact noEnd (split ▸ List.mem_append_left rest marked)
  · have whole : path = front path (index + 1) ++ String.ofList rest := by
      rw [← String.toList_inj, String.toList_append, String.toList_ofList, split]
    rw [whole, String.utf8ByteSize_append] at short
    exact Nat.le_trans (Nat.le_add_right _ _) short

/-- The directories to be made for a name in a directory, and the name, are the fronts of its
path. -/
theorem outward_join {directory name : String} (isName : IsName name) :
    outward (join directory name) =
      fronts (join directory name) (steps (join directory name)).length := by
  have ends : steps (join directory name) = stepsInto directory ++ [.enter name] :=
    steps_join isName
  have count : (steps (join directory name)).length = (stepsInto directory).length + 1 := by
    rw [ends, List.length_append, List.length_singleton]
  have leads : leadsOn (join directory name) (stepsInto directory).length = true := by
    rw [← Bool.not_eq_false]
    intro stays
    have inside : (stepsInto directory).length < (steps (join directory name)).length := by omega
    have stay := getElem_steps_of_not_leadsOn stays inside
    simp [ends] at stay
  have whole : front (join directory name) ((stepsInto directory).length + 1) =
      join directory name := by
    rw [← count, length_steps, front_length]
  rw [count, fronts_of_leadsOn leads, whole, outward]
  have named : ((List.range (splitAtEach '/' (join directory name).toList).length).filter
      (leadsOn (join directory name))).dropLast =
        (List.range (stepsInto directory).length).filter (leadsOn (join directory name)) := by
    rw [← length_steps, count, List.range_succ, List.filter_append]
    simp [leads]
  exact congrArg _ (congrArg _ (congrArg List.reverse named))

end Path

namespace Files

/-! ## Trees that lack directories -/

/-- Nothing but directories has been added to a tree. -/
structure Grows (early late : Files) : Prop where
  working : late.working = early.working
  kept : ∀ {place : Location} {node : Node}, early.get? place = some node →
    late.get? place = some node
  added : ∀ {place : Location}, early.get? place = none →
    late.get? place = none ∨ late.get? place = some .directory

theorem Grows.refl (files : Files) : files.Grows files :=
  ⟨rfl, id, .inl⟩

theorem Grows.trans {first second third : Files} (early : first.Grows second)
    (late : second.Grows third) : first.Grows third := by
  refine ⟨late.working.trans early.working, fun found => late.kept (early.kept found),
    fun nothing => ?_⟩
  rcases early.added nothing with still | added
  · exact late.added still
  · exact .inr (late.kept added)

theorem Grows.nothing {early late : Files} (grows : early.Grows late) {place : Location}
    (nothing : late.get? place = none) : early.get? place = none := by
  cases found : early.get? place with
  | none => rfl
  | some node =>
    rw [grows.kept found] at nothing
    cases nothing

/-- Where a directory stands later, there was one or nothing. -/
theorem Grows.directory {early late : Files} (grows : early.Grows late) {place : Location}
    (there : late.get? place = some .directory) :
    early.get? place = none ∨ early.get? place = some .directory := by
  cases found : early.get? place with
  | none => exact .inl rfl
  | some node =>
    rw [grows.kept found] at there
    exact .inr there

theorem Grows.put {early late : Files} (grows : early.Grows late) {place : Location}
    (nothing : early.get? place = none) (there : late.get? place = some .directory) :
    (early.put place .directory).Grows late := by
  have free : early.IsFree place := isFree_of_get?_ne (by rw [nothing]; simp)
  refine ⟨grows.working, fun {other node} found => ?_, fun {other} found => ?_⟩
  · by_cases same : other = place
    · rw [same, get?_put_self free] at found
      rw [same, there, found]
    · rw [get?_put_of_ne same] at found
      exact grows.kept found
  · by_cases same : other = place
    · rw [same, get?_put_self free] at found
      cases found
    · rw [get?_put_of_ne same] at found
      exact grows.added found

theorem grows_put {files : Files} {place : Location} (nothing : files.get? place = none) :
    files.Grows (files.put place .directory) := by
  have free : files.IsFree place := isFree_of_get?_ne (by rw [nothing]; simp)
  refine ⟨rfl, fun {other node} found => ?_, fun {other} found => ?_⟩
  · have differs : other ≠ place := by
      rintro rfl
      rw [nothing] at found
      cases found
    rw [get?_put_of_ne differs]
    exact found
  · by_cases same : other = place
    · rw [same, get?_put_self free]
      exact .inr rfl
    · rw [get?_put_of_ne same]
      exact .inl found

/-- A way through the later tree is one through the earlier, or a directory is missing there. -/
theorem Grows.walk {early late : Files} (grows : early.Grows late) {place target : Location}
    {way : List Path.Step} (walked : late.walk place way = .ok target) :
    early.walk place way = .ok target ∨ early.walk place way = .error .notFound := by
  induction way generalizing place with
  | nil => exact .inl walked
  | cons step way ih =>
    simp only [Files.walk] at walked ⊢
    split at walked
    · next there =>
      rcases grows.directory there with nothing | here
      · rw [nothing]
        exact .inr rfl
      · rw [here]
        cases step with
        | stay => exact ih walked
        | up => exact ih walked
        | enter name =>
          simp only at walked ⊢
          split at walked
          · cases walked
          · next short =>
            rw [if_neg short]
            exact ih walked
    · cases walked
    · cases walked

/-! ## Ways that end in directories -/

/-- Every place on the way to this one, from the root on, is that of a directory. -/
def Stands (files : Files) (place : Location) : Prop :=
  ∀ other, other <+: place → other ≠ place → files.get? other = some .directory

/-- Where the walk starts that a path describes. -/
def origin (files : Files) (path : String) : Location :=
  if Path.isRooted path then [] else files.working

theorem get?_of_prefix_working {files : Files} {place : Location} (within : place <+: files.working) :
    files.get? place = some .directory := by
  rw [get?, if_pos (List.isPrefixOf_iff_prefix.mpr within)]

theorem get?_origin (files : Files) (path : String) :
    files.get? (files.origin path) = some .directory := by
  refine get?_of_prefix_working ?_
  unfold origin
  split
  · exact List.nil_prefix
  · exact List.prefix_refl _

theorem stands_origin (files : Files) (path : String) : files.Stands (files.origin path) := by
  intro other within _
  refine get?_of_prefix_working (within.trans ?_)
  unfold origin
  split
  · exact List.nil_prefix
  · exact List.prefix_refl _

theorem Stands.dropLast {files : Files} {place : Location} (stands : files.Stands place) :
    files.Stands place.dropLast := by
  intro other within differs
  refine stands other (within.trans (List.dropLast_prefix place)) ?_
  rintro rfl
  exact differs (within.eq_of_length_le (List.dropLast_prefix _).length_le)

/-- A walk leads through directories. -/
theorem stands_of_walk {files : Files} {place target : Location} {way : List Path.Step}
    (stands : files.Stands place) (walked : files.walk place way = .ok target) :
    files.Stands target := by
  induction way generalizing place with
  | nil =>
    cases walked
    exact stands
  | cons step way ih =>
    simp only [Files.walk] at walked
    split at walked
    · next there =>
      cases step with
      | stay => exact ih stands walked
      | up => exact ih stands.dropLast walked
      | enter name =>
        simp only at walked
        split at walked
        · cases walked
        · refine ih (fun other within differs => ?_) walked
          rcases List.prefix_concat_iff.mp within with whole | inside
          · exact absurd whole differs
          · by_cases same : other = place
            · exact same ▸ there
            · exact stands other inside same
    · cases walked
    · cases walked

/-- A walk that does not end by entering a name ends in a directory. -/
theorem directory_of_walk {files : Files} {place target : Location} {way : List Path.Step}
    {step : Path.Step} (stands : files.Stands place) (noName : ∀ name, step ≠ .enter name)
    (walked : files.walk place (way ++ [step]) = .ok target) :
    files.get? target = some .directory := by
  obtain ⟨middle, first, there, last⟩ := walk_concat_ok walked
  have around := stands_of_walk stands first
  simp only [Files.walk, there] at last
  cases step with
  | stay =>
    cases last
    exact there
  | up =>
    cases last
    by_cases root : middle = []
    · rw [root]
      exact get?_of_prefix_working List.nil_prefix
    · refine around _ (List.dropLast_prefix _) fun same => ?_
      have shorter := congrArg List.length same
      rw [List.length_dropLast] at shorter
      have := List.length_pos_iff.mpr root
      omega
  | enter name => exact absurd rfl (noName name)

/-- From a directory a step leads somewhere, unless a name is too long. -/
theorem walk_step_ne_notFound {files : Files} {place : Location}
    (there : files.get? place = some .directory) (step : Path.Step) :
    files.walk place [step] ≠ .error .notFound := by
  simp only [Files.walk, there]
  cases step with
  | stay => simp
  | up => simp
  | enter name =>
    simp only
    split <;> simp

/-- A way leads to a directory. -/
structure Arrives (files : Files) (start : Location) (way : List Path.Step) (place : Location) :
    Prop where
  walked : files.walk start way = .ok place
  there : files.get? place = some .directory

/-- The first steps of a way to a directory lead to one too. -/
theorem Arrives.take {files : Files} {start place : Location} {way : List Path.Step}
    (arrives : files.Arrives start way place) (count : Nat) :
    ∃ middle, files.Arrives start (way.take count) middle := by
  have walked := arrives.walked
  rw [← List.take_append_drop count way, walk_append] at walked
  cases first : files.walk start (way.take count) with
  | error fault =>
    rw [first] at walked
    cases walked
  | ok middle =>
    rw [first] at walked
    refine ⟨middle, first, ?_⟩
    cases later : way.drop count with
    | nil =>
      rw [later] at walked
      cases walked
      exact arrives.there
    | cons step rest =>
      rw [later] at walked
      simp only [bind, Except.bind, Files.walk] at walked
      split at walked
      · next there => exact there
      · cases walked
      · cases walked

/-- A path whose last step leads on, and which does not end with a slash. -/
structure EndsWith (path : String) (way : List Path.Step) (step : Path.Step) : Prop where
  noFault : Path.fault? path = none
  steps : Path.steps path = way ++ [step]
  toName : Path.stepsToName path = Path.steps path
  leadsOn : step ≠ .stay

variable {files late : Files} {path : String} {way : List Path.Step} {step : Path.Step}
  {place : Location}

theorem EndsWith.follow (ends : EndsWith path way step) (files : Files) :
    files.follow path (Path.stepsToName path) = files.walk (files.origin path) (way ++ [step]) := by
  rw [ends.toName, ends.steps, Files.follow, ends.noFault, origin]

theorem EndsWith.kindAt (ends : EndsWith path way step)
    (arrives : files.Arrives (files.origin path) (way ++ [step]) place) :
    Program.kindAt files path = some .directory := by
  have located : files.locate path = .ok place := by
    rw [locate, ← ends.toName, ends.follow, arrives.walked]
  simp only [Program.kindAt, reach, located, bind, Except.bind, arrives.there, pure, Except.pure,
    Except.toOption, Option.join_some, Option.map_some, Node.kind]

/-- What comes of making a directory in a tree that lacks nothing but directories. -/
inductive Makes (files late : Files) (path : String) (way : List Path.Step) (place : Location) : Prop
  | made {after : Files} (changes : files.change (.makeDirectory path) = .ok after)
      (grows : after.Grows late) (arrives : after.Arrives (after.origin path) way place)
  | stood (fails : files.change (.makeDirectory path) = .error .alreadyThere)
      (arrives : files.Arrives (files.origin path) way place)
  | lacked (fails : files.change (.makeDirectory path) = .error .notFound)
      (missing : files.walk (files.origin path) way = .error .notFound)

theorem EndsWith.makes (ends : EndsWith path way step) (grows : files.Grows late)
    (arrives : late.Arrives (late.origin path) (way ++ [step]) place) :
    Makes files late path (way ++ [step]) place := by
  have start : late.origin path = files.origin path := by rw [origin, origin, grows.working]
  have last : (Path.stepsToName path).getLast? = some step := by
    rw [ends.toName, ends.steps, List.getLast?_concat]
  rw [start] at arrives
  rcases grows.walk arrives.walked with walked | missing
  · cases step with
    | stay => exact absurd rfl ends.leadsOn
    | up =>
      refine .stood ?_ ⟨walked, directory_of_walk (stands_origin files path) (by simp) walked⟩
      simp only [change, Files.makeDirectory, named, ends.follow, walked, last, bind, Except.bind]
    | enter name =>
      have named : files.named path .alreadyThere = .ok place := by
        simp only [named, ends.follow, walked, last, bind, Except.bind]
      rcases grows.directory arrives.there with nothing | there
      · have changes : files.change (.makeDirectory path) = .ok (files.put place .directory) := by
          simp only [change, Files.makeDirectory, named, nothing, bind, Except.bind]
        have free : files.IsFree place := isFree_of_get?_ne (by rw [nothing]; simp)
        refine .made changes (grows.put nothing arrives.there) ⟨?_, get?_put_self free _⟩
        exact walk_of_directories (fun _ => (grows_put nothing).kept) walked
      · refine .stood ?_ ⟨walked, there⟩
        simp only [change, Files.makeDirectory, named, there, bind, Except.bind]
  · refine .lacked ?_ missing
    simp only [change, Files.makeDirectory, named, ends.follow, missing, bind, Except.bind]

end Files

/-! ## Making directories -/

namespace FileTask

variable {time : Moment} {files late : Files} {path target : String} {held : Files → Prop}

theorem completes_attempt_ok {c : Files.Change} {changed : Files} (holds : held files)
    (changes : files.change c = .ok changed)
    (keeps : ∀ part left, part.PartOf c → files.change part = .ok left → held left) :
    (attempt c).Completes time files held fun answer after => answer = none ∧ after = changed := by
  refine ⟨throughout_attempt holds keeps, none, changed, ?_, rfl, rfl⟩
  simp only [runOn, attempt, ExceptT.run_mk, Program.run, changes]

theorem completes_attempt_error {c : Files.Change} {fault : Fault} (holds : held files)
    (fails : files.change c = .error fault)
    (keeps : ∀ part left, part.PartOf c → files.change part = .ok left → held left) :
    (attempt c).Completes time files held fun answer after =>
      answer = some fault ∧ after = files := by
  refine ⟨throughout_attempt holds keeps, some fault, files, ?_, rfl, rfl⟩
  simp only [runOn, attempt, ExceptT.run_mk, Program.run, fails]

theorem completes_settle {answer : Option Fault} (holds : held files)
    (there : answer ≠ none → Program.kindAt files path = some .directory) :
    (settle target path answer).Completes time files held fun _ after => after = files := by
  cases answer with
  | none => exact completes_pure holds rfl
  | some fault =>
    refine (completes_look holds).bind ?_
    rintro _ _ ⟨rfl, rfl⟩
    rw [there (Option.some_ne_none fault)]
    exact completes_pure holds rfl

/-- An attempt to make a directory, where a tree lacks nothing but directories, fails at most because
the way to it is missing, or because it is there. -/
theorem completes_attempt_makeDirectory {way : List Path.Step} {step : Path.Step} {place : Location}
    (ends : Files.EndsWith path way step) (grows : files.Grows late)
    (arrives : late.Arrives (late.origin path) (way ++ [step]) place) :
    (attempt (.makeDirectory path)).Completes time files (·.Grows late) fun answer after =>
      after.Grows late ∧
        (answer ≠ some .notFound ∧ after.Arrives (after.origin path) (way ++ [step]) place ∨
          (answer = some .notFound ∧ after = files) ∧
            after.walk (after.origin path) (way ++ [step]) = .error .notFound) := by
  have makes := ends.makes grows arrives
  have keeps : ∀ part left, part.PartOf (.makeDirectory path) → files.change part = .ok left →
      left.Grows late := by
    intro part left partly changes
    cases partly
    cases makes with
    | made changes' grown => exact Except.ok.inj (changes'.symm.trans changes) ▸ grown
    | stood fails => cases fails.symm.trans changes
    | lacked fails => cases fails.symm.trans changes
  cases makes with
  | made changes grown here =>
    refine Completes.mono (completes_attempt_ok grows changes keeps) ?_
    rintro _ _ ⟨rfl, rfl⟩
    exact ⟨grown, .inl ⟨by simp, here⟩⟩
  | stood fails here =>
    refine Completes.mono (completes_attempt_error grows fails keeps) ?_
    rintro _ _ ⟨rfl, rfl⟩
    exact ⟨grows, .inl ⟨by simp, here⟩⟩
  | lacked fails missing =>
    refine Completes.mono (completes_attempt_error grows fails keeps) ?_
    rintro _ _ ⟨rfl, rfl⟩
    exact ⟨grows, .inr ⟨⟨rfl, rfl⟩, missing⟩⟩

theorem endsWith_front {index : Nat} (leads : Path.leadsOn path index = true)
    (noFault : Path.fault? path = none) (inside : index < (Path.steps path).length) :
    Files.EndsWith (Path.front path (index + 1)) ((Path.steps path).take index)
      (Path.steps path)[index] where
  noFault := Path.fault?_front leads noFault
  steps := by rw [Path.steps_front leads, List.take_succ_eq_append_getElem inside]
  toName := Path.stepsToName_eq_steps (Path.getLast?_front leads)
  leadsOn := Path.getElem_steps_of_leadsOn leads inside

/-- The directories on a path are made, from the one that is missing outermost on inwards. -/
theorem completes_makeOutward (noFault : Path.fault? path = none)
    (arrives : ∀ count, ∃ place,
      late.Arrives (late.origin path) ((Path.steps path).take count) place) {count : Nat}
    (inside : count ≤ (Path.steps path).length) (grows : files.Grows late) :
    (makeOutward target (Path.fronts path count)).Completes time files (·.Grows late)
      fun _ after => after.Grows late ∧
        ∃ place, after.Arrives (after.origin path) ((Path.steps path).take count) place := by
  induction count generalizing files with
  | zero => exact completes_pure grows ⟨grows, _, rfl, Files.get?_origin files path⟩
  | succ index ih =>
    have within : index < (Path.steps path).length := inside
    cases leads : Path.leadsOn path index with
    | false =>
      rw [Path.fronts_of_not_leadsOn leads]
      refine (ih (Nat.le_of_lt within) grows).mono ?_
      rintro _ after ⟨grown, place, walked, there⟩
      refine ⟨grown, place, ?_, there⟩
      rw [List.take_succ_eq_append_getElem within, Path.getElem_steps_of_not_leadsOn leads within,
        Files.walk_append, walked]
      simp only [bind, Except.bind, Files.walk, there]
    | true =>
      have ends := endsWith_front leads noFault within
      obtain ⟨place, whole⟩ := arrives (index + 1)
      rw [List.take_succ_eq_append_getElem within] at whole ⊢
      have start (tree : Files) : tree.origin (Path.front path (index + 1)) = tree.origin path := by
        rw [Files.origin, Files.origin, Path.isRooted_front leads]
      rw [← start] at whole
      rw [Path.fronts_of_leadsOn leads]
      refine (completes_attempt_makeDirectory ends grows whole).bind ?_
      rintro answer after ⟨grown, found⟩
      have settles {again : Option Fault} {tree : Files} (grown : tree.Grows late)
          (here : tree.Arrives (tree.origin (Path.front path (index + 1)))
            ((Path.steps path).take index ++ [(Path.steps path)[index]]) place) :
          (settle target (Path.front path (index + 1)) again).Completes time tree (·.Grows late)
            fun _ last => last.Grows late ∧ ∃ place, last.Arrives (last.origin path)
              ((Path.steps path).take index ++ [(Path.steps path)[index]]) place := by
        refine Completes.mono (completes_settle grown fun _ => ends.kindAt here) ?_
        rintro _ _ rfl
        exact ⟨grown, place, start _ ▸ here⟩
      rcases found with ⟨other, here⟩ | ⟨⟨rfl, -⟩, -⟩
      · split
        · exact absurd rfl other
        · exact settles grown here
      · -- the way to the directory is made first, and leads to it then
        refine (ih (Nat.le_of_lt within) grown).bind ?_
        rintro _ middle ⟨grownMiddle, around, reached⟩
        refine (completes_attempt_makeDirectory ends grownMiddle whole).bind ?_
        rintro again last ⟨grownLast, ⟨-, here⟩ | ⟨⟨rfl, rfl⟩, missing⟩⟩
        · exact settles grownLast here
        · rw [start, Files.walk_append, reached.walked] at missing
          exact absurd missing (Files.walk_step_ne_notFound reached.there _)

/-- The directory of a name is made where a tree lacks nothing but directories for it to be there. -/
theorem completes_makeDirectories {directory name : String} (isName : Path.IsName name)
    (noFault : Path.fault? (Path.join directory name) = none)
    (short : name.utf8ByteSize ≤ Path.maxNameBytes) (grows : files.Grows late)
    (enters : late.Enters directory)
    (there : late.get? (Files.home late.working directory ++ [name]) = some .directory) :
    (makeDirectories (Path.join directory name)).Completes time files (·.Grows late)
      fun _ after => after.Grows late ∧ after.Enters directory ∧
        after.get? (Files.home files.working directory ++ [name]) = some .directory := by
  have located : late.locate (Path.join directory name) =
      .ok (Files.home late.working directory ++ [name]) :=
    Files.locate_join isName noFault enters short
  have whole : late.Arrives (late.origin (Path.join directory name))
      (Path.steps (Path.join directory name)) (Files.home late.working directory ++ [name]) := by
    refine ⟨?_, there⟩
    rwa [Files.locate, Files.follow, noFault] at located
  have full : (Path.join directory name).isEmpty = false := Path.join_ne_empty isName
  unfold makeDirectories
  simp only [full, Bool.not_false, if_true, Path.outward_join isName]
  refine Completes.mono (completes_makeOutward noFault (fun count => whole.take count)
    (Nat.le_refl _) grows) ?_
  rintro _ after ⟨grown, place, arrives⟩
  have working : after.working = files.working := grown.working.symm.trans grows.working
  rw [List.take_length] at arrives
  have found : after.locate (Path.join directory name) = .ok place := by
    rw [Files.locate, Files.follow, noFault]
    exact arrives.walked
  obtain rfl := (Files.leads_join after.working directory isName).located rfl found
  rw [Files.locate, Path.steps_join isName] at found
  exact ⟨grown, (Files.follow_join_ok isName found).2, working ▸ arrives.there⟩

end FileTask

end TreeExport

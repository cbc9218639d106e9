import TreeExport.Files.Basic

/-!
# Where paths lead

A walk through a file tree either fails or comes to a place that its steps alone fix: the tree only
decides whether the walk fails.  So a path has one place as long as the working directory stays, and
`leads_join` says which it is for a name in a directory.
-/

namespace TreeExport

namespace Path

/-- The text can be the name of a file: it is not empty, holds no slash, and is not one or two
dots. -/
structure IsName (name : String) : Prop where
  nonempty : name.toList ≠ []
  noSlash : '/' ∉ name.toList
  notDot : name.toList ≠ ['.']
  notDots : name.toList ≠ ['.', '.']

/-! ## Splitting -/

theorem splitAtEach_ne_nil (separator : Char) (cs : List Char) :
    splitAtEach separator cs ≠ [] := by
  cases cs with
  | nil => exact List.cons_ne_nil _ _
  | cons c rest =>
    unfold splitAtEach
    split
    · exact List.cons_ne_nil _ _
    · split <;> exact List.cons_ne_nil _ _

theorem splitAtEach_of_notMem {separator : Char} {cs : List Char} (absent : separator ∉ cs) :
    splitAtEach separator cs = [cs] := by
  induction cs with
  | nil => rfl
  | cons c rest ih =>
    have other : c ≠ separator := fun same => absent (same ▸ List.mem_cons_self)
    have later : separator ∉ rest := fun member => absent (List.mem_cons_of_mem _ member)
    rw [splitAtEach, if_neg other, ih later]

theorem splitAtEach_append_cons (separator : Char) (front back : List Char) :
    splitAtEach separator (front ++ separator :: back) =
      splitAtEach separator front ++ splitAtEach separator back := by
  induction front with
  | nil => simp [splitAtEach]
  | cons c rest ih =>
    rw [List.cons_append, splitAtEach, splitAtEach, ih]
    by_cases same : c = separator
    · rw [if_pos same, if_pos same, List.cons_append]
    · rw [if_neg same, if_neg same]
      cases pieces : splitAtEach separator rest with
      | nil => exact absurd pieces (splitAtEach_ne_nil separator rest)
      | cons first more => rfl

/-- The pieces of a text hold no separator. -/
theorem notMem_of_mem_splitAtEach {separator : Char} {cs piece : List Char}
    (member : piece ∈ splitAtEach separator cs) : separator ∉ piece := by
  induction cs generalizing piece with
  | nil =>
    obtain rfl := List.mem_singleton.mp member
    exact List.not_mem_nil
  | cons c rest ih =>
    unfold splitAtEach at member
    split at member
    · rcases List.mem_cons.mp member with rfl | later
      · exact List.not_mem_nil
      · exact ih later
    · next other =>
      split at member
      · next empty => exact absurd empty (splitAtEach_ne_nil separator rest)
      · next first more pieces =>
        rcases List.mem_cons.mp member with rfl | later
        · intro inside
          rcases List.mem_cons.mp inside with same | deeper
          · exact other same.symm
          · exact ih (pieces ▸ List.mem_cons_self) deeper
        · exact ih (pieces ▸ List.mem_cons_of_mem _ later)

theorem Step.ofPiece_name {name : String} (isName : IsName name) :
    Step.ofPiece name.toList = .enter name := by
  have plain : ¬ (name.toList = [] ∨ name.toList = ['.']) := by
    rintro (empty | dot)
    · exact isName.nonempty empty
    · exact isName.notDot dot
  rw [Step.ofPiece, if_neg plain, if_neg isName.notDots, String.ofList_toList]

/-! ## Steps of a name in a directory -/

/-- The steps that lead into a directory; a slash at the end of its path makes no difference. -/
def stepsInto (directory : String) : List Step :=
  if directory.isEmpty then []
  else if directory.toList.getLast? = some '/' then
    (splitAtEach '/' directory.toList.dropLast).map Step.ofPiece
  else steps directory

/-- A name in a directory is its steps into the directory and then the name. -/
theorem splitAtEach_join {directory name : String} (isName : IsName name) :
    (splitAtEach '/' (join directory name).toList).map Step.ofPiece =
      stepsInto directory ++ [.enter name] := by
  unfold join stepsInto
  split
  · rw [splitAtEach_of_notMem isName.noSlash, List.map_singleton, Step.ofPiece_name isName,
      List.nil_append]
  · split
    · next slash =>
      have whole : directory.toList = directory.toList.dropLast ++ ['/'] := by
        obtain ⟨front, split⟩ := List.getLast?_eq_some_iff.mp slash
        rw [split, List.dropLast_concat]
      rw [String.toList_append, whole, List.append_assoc, List.singleton_append,
        splitAtEach_append_cons, splitAtEach_of_notMem isName.noSlash, List.map_append,
        List.map_singleton, Step.ofPiece_name isName, List.dropLast_concat]
    · have text : (s!"{directory}/{name}").toList = directory.toList ++ '/' :: name.toList := by
        simp [toString, String.toList_append]
      rw [text, splitAtEach_append_cons, splitAtEach_of_notMem isName.noSlash, List.map_append,
        List.map_singleton, Step.ofPiece_name isName, steps]

theorem toList_join_eq_append {directory name : String} :
    ∃ front, (join directory name).toList = front ++ name.toList := by
  unfold join
  split
  · exact ⟨[], rfl⟩
  · split
    · exact ⟨directory.toList, String.toList_append⟩
    · exact ⟨directory.toList ++ ['/'], by simp [toString, String.toList_append]⟩

/-- The path of a name does not end with a slash. -/
theorem getLast?_join {directory name : String} (isName : IsName name) :
    (join directory name).toList.getLast? ≠ some '/' := by
  obtain ⟨front, text⟩ := @toList_join_eq_append directory name
  rw [text, List.getLast?_append, List.getLast?_eq_some_getLast isName.nonempty, Option.some_or]
  intro last
  exact isName.noSlash (Option.some.inj last ▸ List.getLast_mem isName.nonempty)

theorem join_ne_empty {directory name : String} (isName : IsName name) :
    (join directory name).isEmpty = false := by
  obtain ⟨front, text⟩ := @toList_join_eq_append directory name
  rw [Bool.eq_false_iff]
  intro empty
  have nothing : (join directory name).toList = [] := by
    rw [String.isEmpty_iff.mp empty]
    rfl
  rw [text] at nothing
  exact isName.nonempty (List.append_eq_nil_iff.mp nothing).2

theorem steps_join {directory name : String} (isName : IsName name) :
    steps (join directory name) = stepsInto directory ++ [.enter name] :=
  splitAtEach_join isName

/-- Where a path does not end with a slash, its steps lead to its name. -/
theorem stepsToName_eq_steps {path : String} (last : path.toList.getLast? ≠ some '/') :
    stepsToName path = steps path := by
  have kept : (path.toList.reverse.dropWhile (· == '/')).reverse = path.toList := by
    rw [← List.head?_reverse] at last
    cases reversed : path.toList.reverse with
    | nil =>
      rw [List.reverse_eq_nil_iff.mp reversed]
      rfl
    | cons c rest =>
      have other : (c == '/') = false := by
        rw [beq_eq_false_iff_ne]
        intro same
        exact last (by rw [reversed, same]; rfl)
      rw [List.dropWhile_cons_of_neg (by simp [other]), ← reversed, List.reverse_reverse]
  rw [stepsToName, kept, steps]

theorem stepsToName_join {directory name : String} (isName : IsName name) :
    stepsToName (join directory name) = stepsInto directory ++ [.enter name] := by
  rw [stepsToName_eq_steps (getLast?_join isName), steps_join isName]

/-- A name in a directory is a path that does not depend on how the directory is written but for
its steps. -/
theorem stepsInto_join {directory name : String} (isName : IsName name) :
    stepsInto (join directory name) = stepsInto directory ++ [.enter name] := by
  rw [stepsInto, join_ne_empty isName, if_neg Bool.false_ne_true, if_neg (getLast?_join isName),
    steps_join isName]

theorem isRooted_join {directory name : String} (isName : IsName name) :
    isRooted (join directory name) = isRooted directory := by
  unfold join isRooted
  split
  · next empty =>
    rw [String.isEmpty_iff.mp empty]
    cases chars : name.toList with
    | nil => rfl
    | cons c rest =>
      have other : c ≠ '/' := fun same => isName.noSlash (by simp [chars, same])
      simp [other]
  · next full =>
    have nonempty : directory.toList ≠ [] := by
      intro nothing
      exact full (String.isEmpty_iff.mpr (String.toList_eq_nil_iff.mp nothing))
    split
    · rw [String.toList_append, List.head?_append, List.head?_eq_some_head nonempty,
        Option.some_or]
    · have text : (s!"{directory}/{name}").toList = directory.toList ++ '/' :: name.toList := by
        simp [toString, String.toList_append]
      rw [text, List.head?_append, List.head?_eq_some_head nonempty, Option.some_or]

end Path

namespace Files

/-- Where steps lead from a place, if they lead anywhere. -/
def land (place : Location) : List Path.Step → Location
  | [] => place
  | .stay :: way => land place way
  | .up :: way => land place.dropLast way
  | .enter name :: way => land (place ++ [name]) way

theorem land_append (place : Location) (first second : List Path.Step) :
    land place (first ++ second) = land (land place first) second := by
  induction first generalizing place with
  | nil => rfl
  | cons step way ih => cases step <;> exact ih _

/-- A walk that does not fail leads where its steps lead. -/
theorem eq_land_of_walk {files : Files} {place target : Location} {way : List Path.Step}
    (walked : files.walk place way = .ok target) : target = land place way := by
  induction way generalizing place with
  | nil =>
    cases walked
    rfl
  | cons step way ih =>
    unfold walk at walked
    split at walked
    · cases step with
      | stay => exact ih walked
      | up => exact ih walked
      | enter name =>
        simp only at walked
        split at walked
        · cases walked
        · exact ih walked
    · cases walked
    · cases walked

/-- The place of a directory that a path names, where `working` is the working directory. -/
def home (working : Location) (directory : String) : Location :=
  land (if Path.isRooted directory then [] else working) (Path.stepsInto directory)

theorem home_join {working : Location} {directory name : String} (isName : Path.IsName name) :
    home working (Path.join directory name) = home working directory ++ [name] := by
  rw [home, Path.isRooted_join isName, Path.stepsInto_join isName, land_append]
  rfl

/-- The place that a path leads to, if it leads anywhere. -/
def goal (working : Location) (path : String) : Location :=
  land (if Path.isRooted path then [] else working) (Path.steps path)

theorem goal_join (working : Location) (directory : String) {name : String}
    (isName : Path.IsName name) :
    goal working (Path.join directory name) = home working directory ++ [name] := by
  rw [goal, Path.isRooted_join isName, Path.steps_join isName, land_append]
  rfl

theorem eq_goal_of_locate {files : Files} {path : String} {place : Location}
    (located : files.locate path = .ok place) : place = goal files.working path := by
  unfold locate follow at located
  split at located
  · cases located
  · exact eq_land_of_walk located

/-- What is opened at a path stands at the place that it leads to. -/
theorem locate_of_openAt {files : Files} {path : String} {node : Node}
    (opened : files.openAt path = .ok node) :
    files.locate path = .ok (goal files.working path) ∧
      files.get? (goal files.working path) = some node := by
  simp only [openAt, reach, bind, Except.bind, pure, Except.pure] at opened
  cases located : files.locate path with
  | error fault =>
    rw [located] at opened
    cases opened
  | ok place =>
    obtain rfl := eq_goal_of_locate located
    rw [located] at opened
    refine ⟨rfl, ?_⟩
    simp only at opened
    split at opened
    · next there =>
      cases opened
      exact there
    · cases opened

theorem openAt_of_locate {files : Files} {path : String} {place : Location} {node : Node}
    (located : files.locate path = .ok place) (there : files.get? place = some node) :
    files.openAt path = .ok node := by
  simp only [openAt, reach, located, bind, Except.bind, pure, Except.pure, there]

/-- Whatever stands in a tree, the path leads to the place or nowhere. -/
structure Leads (working : Location) (path : String) (place : Location) : Prop where
  located : ∀ {files : Files} {found : Location}, files.working = working →
    files.locate path = .ok found → found = place
  named : ∀ {files : Files} {dots : Fault} {found : Location}, files.working = working →
    files.named path dots = .ok found → found = place

/-- The path of a name in a directory leads to the name at the place of the directory. -/
theorem leads_join (working : Location) (directory : String) {name : String}
    (isName : Path.IsName name) :
    Leads working (Path.join directory name) (home working directory ++ [name]) := by
  have walked : ∀ {files : Files} {found : Location}, files.working = working →
      files.follow (Path.join directory name) (Path.stepsInto directory ++ [.enter name]) =
        .ok found → found = home working directory ++ [name] := by
    intro files found same followed
    unfold follow at followed
    split at followed
    · cases followed
    · rw [eq_land_of_walk followed, land_append, same, Path.isRooted_join isName]
      rfl
  refine ⟨fun same located => ?_, fun same named => ?_⟩
  · rw [locate, Path.steps_join isName] at located
    exact walked same located
  · rw [Files.named, Path.stepsToName_join isName] at named
    simp only [bind, Except.bind] at named
    split at named
    · cases named
    · next place followed =>
      split at named
      · cases named
        exact walked same followed
      · cases named

/-! ## Directories on the way -/

theorem walk_append (files : Files) (place : Location) (first second : List Path.Step) :
    files.walk place (first ++ second) =
      files.walk place first >>= fun middle => files.walk middle second := by
  induction first generalizing place with
  | nil => rfl
  | cons step way ih =>
    simp only [List.cons_append, walk]
    split
    · cases step with
      | stay => exact ih place
      | up => exact ih _
      | enter name =>
        simp only
        split
        · rfl
        · exact ih _
    · rfl
    · rfl

/-- A walk of some steps and one more is a walk of the steps to a directory. -/
theorem walk_concat_ok {files : Files} {place target : Location} {way : List Path.Step}
    {step : Path.Step} (walked : files.walk place (way ++ [step]) = .ok target) :
    ∃ middle, files.walk place way = .ok middle ∧ files.get? middle = some .directory ∧
      files.walk middle [step] = .ok target := by
  rw [walk_append] at walked
  cases first : files.walk place way with
  | error fault =>
    rw [first] at walked
    cases walked
  | ok middle =>
    rw [first] at walked
    refine ⟨middle, rfl, ?_, walked⟩
    simp only [bind, Except.bind, Files.walk] at walked
    split at walked
    · next there => exact there
    · cases walked
    · cases walked

/-- Nothing is in the way to the directory, and it is there. -/
structure Enters (files : Files) (directory : String) : Prop where
  walked : files.walk (if Path.isRooted directory then [] else files.working)
    (Path.stepsInto directory) = .ok (home files.working directory)
  there : files.get? (home files.working directory) = some .directory

/-- What it takes for a name in a directory to be reached. -/
theorem follow_join_ok {files : Files} {directory name : String} (isName : Path.IsName name)
    {place : Location}
    (followed : files.follow (Path.join directory name)
      (Path.stepsInto directory ++ [.enter name]) = .ok place) :
    Path.fault? (Path.join directory name) = none ∧ files.Enters directory := by
  unfold follow at followed
  split at followed
  · cases followed
  · next noFault =>
    rw [walk_append, Path.isRooted_join isName] at followed
    cases walked : files.walk (if Path.isRooted directory then [] else files.working)
      (Path.stepsInto directory) with
    | error fault =>
      rw [walked] at followed
      cases followed
    | ok middle =>
      rw [walked] at followed
      have here : middle = home files.working directory := eq_land_of_walk walked
      simp only [bind, Except.bind, walk] at followed
      refine ⟨noFault, here ▸ walked, ?_⟩
      rw [← here]
      cases stands : files.get? middle with
      | none =>
        rw [stands] at followed
        cases followed
      | some node =>
        cases node with
        | directory => rfl
        | file content =>
          rw [stands] at followed
          cases followed

theorem enters_of_named {files : Files} {directory name : String} (isName : Path.IsName name)
    {dots : Fault} {place : Location}
    (named : files.named (Path.join directory name) dots = .ok place) :
    Path.fault? (Path.join directory name) = none ∧ files.Enters directory := by
  rw [Files.named, Path.stepsToName_join isName] at named
  simp only [bind, Except.bind] at named
  split at named
  · cases named
  · next place followed => exact follow_join_ok isName followed

/-- A short name in a directory that can be entered is reached. -/
theorem locate_join {files : Files} {directory name : String} (isName : Path.IsName name)
    (noFault : Path.fault? (Path.join directory name) = none) (enters : files.Enters directory)
    (short : name.utf8ByteSize ≤ Path.maxNameBytes) :
    files.locate (Path.join directory name) = .ok (home files.working directory ++ [name]) := by
  rw [locate, Path.steps_join isName, follow, noFault]
  simp only
  rw [walk_append, Path.isRooted_join isName, enters.walked]
  simp only [bind, Except.bind, walk, enters.there]
  rw [if_neg (Nat.not_lt.mpr short)]

/-- A short name in a directory that can be entered is found. -/
theorem named_join {files : Files} {directory name : String} (isName : Path.IsName name)
    (noFault : Path.fault? (Path.join directory name) = none) (enters : files.Enters directory)
    (short : name.utf8ByteSize ≤ Path.maxNameBytes) (dots : Fault) :
    files.named (Path.join directory name) dots = .ok (home files.working directory ++ [name]) := by
  have located := locate_join isName noFault enters short
  rw [locate, Path.steps_join isName] at located
  simp only [named, Path.stepsToName_join isName, located, List.getLast?_concat, bind, Except.bind]

/-- A name that is reached is short. -/
theorem short_of_follow_join {files : Files} {directory name : String} (isName : Path.IsName name)
    {place : Location}
    (followed : files.follow (Path.join directory name)
      (Path.stepsInto directory ++ [.enter name]) = .ok place) :
    name.utf8ByteSize ≤ Path.maxNameBytes := by
  obtain ⟨noFault, enters⟩ := follow_join_ok isName followed
  rw [follow, noFault] at followed
  simp only at followed
  rw [walk_append, Path.isRooted_join isName, enters.walked] at followed
  simp only [bind, Except.bind, walk, enters.there] at followed
  split at followed
  · cases followed
  · next short => exact Nat.not_lt.mp short

/-- A directory in one that can be entered can be entered. -/
theorem Enters.join {files : Files} {directory name : String} (isName : Path.IsName name)
    (enters : files.Enters directory) (short : name.utf8ByteSize ≤ Path.maxNameBytes)
    (there : files.get? (home files.working directory ++ [name]) = some .directory) :
    files.Enters (Path.join directory name) := by
  refine ⟨?_, by rwa [home_join isName]⟩
  rw [Path.isRooted_join isName, Path.stepsInto_join isName, walk_append, enters.walked,
    home_join isName]
  simp only [bind, Except.bind, walk, enters.there]
  rw [if_neg (Nat.not_lt.mpr short)]

/-- A directory can be entered if one in it can. -/
theorem Enters.around {files : Files} {directory name : String} (isName : Path.IsName name)
    (enters : files.Enters (Path.join directory name)) : files.Enters directory := by
  have walked := enters.walked
  rw [Path.isRooted_join isName, Path.stepsInto_join isName] at walked
  obtain ⟨middle, first, there, -⟩ := walk_concat_ok walked
  obtain rfl := eq_land_of_walk first
  exact ⟨first, there⟩

/-! ## Names in places -/

theorem isName_of_enter_mem {cs : List Char} {name : String}
    (member : Path.Step.enter name ∈ (splitAtEach '/' cs).map Path.Step.ofPiece) :
    Path.IsName name := by
  obtain ⟨piece, inside, step⟩ := List.mem_map.mp member
  unfold Path.Step.ofPiece at step
  split at step
  · cases step
  · next plain =>
    split at step
    · cases step
    · next notDots =>
      obtain rfl := Path.Step.enter.inj step
      rw [not_or] at plain
      refine ⟨?_, ?_, ?_, ?_⟩
      · rw [String.toList_ofList]
        exact plain.1
      · rw [String.toList_ofList]
        exact Path.notMem_of_mem_splitAtEach inside
      · rw [String.toList_ofList]
        exact plain.2
      · rw [String.toList_ofList]
        exact notDots

theorem mem_of_mem_land {place : Location} {way : List Path.Step} {name : String}
    (member : name ∈ land place way) : name ∈ place ∨ .enter name ∈ way := by
  induction way generalizing place with
  | nil => exact .inl member
  | cons step way ih =>
    cases step with
    | stay =>
      rcases ih member with early | late
      · exact .inl early
      · exact .inr (List.mem_cons_of_mem _ late)
    | up =>
      rcases ih member with early | late
      · exact .inl ((List.dropLast_subset _) early)
      · exact .inr (List.mem_cons_of_mem _ late)
    | enter first =>
      rcases ih member with early | late
      · rcases List.mem_append.mp early with before | here
        · exact .inl before
        · obtain rfl := List.mem_singleton.mp here
          exact .inr List.mem_cons_self
      · exact .inr (List.mem_cons_of_mem _ late)

/-- What a path leads to lies on a way of names, if the working directory does. -/
theorem isName_of_mem_named {files : Files} {path : String} {dots : Fault} {place : Location}
    (working : ∀ name ∈ files.working, Path.IsName name)
    (named : files.named path dots = .ok place) : ∀ name ∈ place, Path.IsName name := by
  simp only [Files.named, bind, Except.bind] at named
  split at named
  · cases named
  · next target followed =>
    split at named
    · cases named
      unfold follow at followed
      split at followed
      · cases followed
      · rw [eq_land_of_walk followed]
        intro name member
        rcases mem_of_mem_land member with early | late
        · split at early
          · exact absurd early List.not_mem_nil
          · exact working name early
        · exact isName_of_enter_mem late
    · cases named

end Files

end TreeExport

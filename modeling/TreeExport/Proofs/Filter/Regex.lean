import TreeExport.Filter.Regex

/-!
# Finding regular expressions

Whether items match at a place of a text is a matter of the first item and of the places behind what it
may cover (`Regex.matchesAt_cons`), so it can be found out from the last place on and from the last
item on (`Regex.describes_columns`).  Hence the library at hand is one that does what is documented
(`Regex.library_isDocumented`).
-/

namespace TreeExport.Regex

variable {item : Item} {rest : List Item} {before cs : List Char} {c : Char}

/-- The items match at the front of a text, behind what stands before. -/
def MatchesAt (items : List Item) (before cs : List Char) : Prop :=
  ∃ piece behind, cs = piece ++ behind ∧ Matches items before piece behind

theorem found_iff {items : List Item} {text : List Char} :
    Found items text ↔ ∃ before cs, text = before ++ cs ∧ MatchesAt items before cs := by
  constructor
  · rintro ⟨before, piece, behind, rfl, found⟩
    exact ⟨before, _, rfl, piece, behind, rfl, found⟩
  · rintro ⟨before, _, rfl, piece, behind, rfl, found⟩
    exact ⟨before, piece, behind, rfl, found⟩

/-! ## One item -/

theorem matchesAt_nil (before cs : List Char) : MatchesAt [] before cs :=
  ⟨[], cs, rfl, .nil⟩

theorem matchesAt_cons : MatchesAt (item :: rest) before cs ↔ ∃ piece later, cs = piece ++ later ∧
    item.Covers before piece later ∧ MatchesAt rest (before ++ piece) later := by
  constructor
  · rintro ⟨_, behind, rfl, found⟩
    cases found with
    | @cons _ _ _ piece later _ covers more =>
      exact ⟨piece, later ++ behind, List.append_assoc _ _ _, covers, later, behind, rfl, more⟩
  · rintro ⟨piece, _, rfl, covers, later, behind, rfl, more⟩
    exact ⟨piece ++ later, behind, (List.append_assoc _ _ _).symm, .cons covers more⟩

theorem matchesAt_start :
    MatchesAt (.start :: rest) before cs ↔ before = [] ∧ MatchesAt rest before cs := by
  rw [matchesAt_cons]
  constructor
  · rintro ⟨_, later, rfl, ⟨first, rfl⟩, more⟩
    rw [List.append_nil] at more
    exact ⟨first, more⟩
  · rintro ⟨first, more⟩
    exact ⟨[], cs, rfl, ⟨first, rfl⟩, (List.append_nil before).symm ▸ more⟩

theorem matchesAt_stop :
    MatchesAt (.stop :: rest) before cs ↔ cs = [] ∧ MatchesAt rest before cs := by
  rw [matchesAt_cons]
  constructor
  · rintro ⟨_, _, rfl, ⟨rfl, rfl⟩, more⟩
    rw [List.append_nil] at more
    exact ⟨rfl, more⟩
  · rintro ⟨rfl, more⟩
    exact ⟨[], [], rfl, ⟨rfl, rfl⟩, (List.append_nil before).symm ▸ more⟩

theorem not_matchesAt_once_nil {set : CharSet} : ¬ MatchesAt (.once set :: rest) before [] := by
  rw [matchesAt_cons]
  rintro ⟨_, later, nothing, ⟨c, -, rfl⟩, -⟩
  cases nothing

theorem matchesAt_once_cons {set : CharSet} : MatchesAt (.once set :: rest) before (c :: cs) ↔
    set.allows c = true ∧ MatchesAt rest (before ++ [c]) cs := by
  rw [matchesAt_cons]
  constructor
  · rintro ⟨_, later, split, ⟨d, allowed, rfl⟩, more⟩
    cases split
    exact ⟨allowed, more⟩
  · rintro ⟨allowed, more⟩
    exact ⟨[c], cs, rfl, ⟨c, allowed, rfl⟩, more⟩

theorem matchesAt_many_nil {set : CharSet} :
    MatchesAt (.many set :: rest) before [] ↔ MatchesAt rest before [] := by
  rw [matchesAt_cons]
  constructor
  · rintro ⟨piece, later, nothing, -, more⟩
    obtain ⟨rfl, rfl⟩ := List.append_eq_nil_iff.mp nothing.symm
    rwa [List.append_nil] at more
  · intro more
    exact ⟨[], [], rfl, fun _ none => absurd none List.not_mem_nil,
      (List.append_nil before).symm ▸ more⟩

/-- What may be repeated is left here, or takes one character more. -/
theorem matchesAt_many_cons {set : CharSet} : MatchesAt (.many set :: rest) before (c :: cs) ↔
    MatchesAt rest before (c :: cs) ∨
      set.allows c = true ∧ MatchesAt (.many set :: rest) (before ++ [c]) cs := by
  constructor
  · intro found
    obtain ⟨piece, later, split, allowed, more⟩ := matchesAt_cons.mp found
    cases piece with
    | nil =>
      rw [List.append_nil] at more
      exact .inl (split ▸ more)
    | cons d piece =>
      cases split
      refine .inr ⟨allowed c List.mem_cons_self, matchesAt_cons.mpr ⟨piece, later, rfl, ?_, ?_⟩⟩
      · exact fun d member => allowed d (List.mem_cons_of_mem _ member)
      · rwa [List.append_assoc]
  · rintro (more | ⟨allowed, found⟩)
    · refine matchesAt_cons.mpr ⟨[], c :: cs, rfl, fun _ none => absurd none List.not_mem_nil, ?_⟩
      rwa [List.append_nil]
    · obtain ⟨piece, later, rfl, all, more⟩ := matchesAt_cons.mp found
      refine matchesAt_cons.mpr ⟨c :: piece, later, rfl, List.forall_mem_cons.mpr ⟨allowed, all⟩, ?_⟩
      rwa [List.append_assoc] at more

/-! ## Columns -/

/-- For each suffix of a text, the longest first, the column says whether something holds there. -/
def Describes (holds : List Char → List Char → Prop) : List Char → List Char → List Bool → Prop
  | before, [], places => ∃ here, places = [here] ∧ (here = true ↔ holds before [])
  | before, c :: rest, places => ∃ here below, places = here :: below ∧
      (here = true ↔ holds before (c :: rest)) ∧ Describes holds (before ++ [c]) rest below

variable {holds : List Char → List Char → Prop} {places later : List Bool}

theorem Describes.headD (describes : Describes holds before cs places) :
    places.headD false = true ↔ holds before cs := by
  cases cs with
  | nil =>
    obtain ⟨here, rfl, iff⟩ := describes
    exact iff
  | cons c rest =>
    obtain ⟨here, below, rfl, iff, -⟩ := describes
    exact iff

/-- Some place of a column is true just where something holds of a suffix. -/
theorem Describes.any_iff (describes : Describes holds before cs places) :
    places.any id = true ↔ ∃ front back, cs = front ++ back ∧ holds (before ++ front) back := by
  induction cs generalizing before places with
  | nil =>
    obtain ⟨here, rfl, iff⟩ := describes
    simp only [List.any_cons, id_eq, List.any_nil, Bool.or_false, iff]
    constructor
    · exact fun now => ⟨[], [], rfl, (List.append_nil before).symm ▸ now⟩
    · rintro ⟨front, back, nothing, now⟩
      obtain ⟨rfl, rfl⟩ := List.append_eq_nil_iff.mp nothing.symm
      rwa [List.append_nil] at now
  | cons c rest ih =>
    obtain ⟨here, below, rfl, iff, more⟩ := describes
    simp only [List.any_cons, id_eq, Bool.or_eq_true, iff, ih more]
    constructor
    · rintro (now | ⟨front, back, rfl, later⟩)
      · exact ⟨[], c :: rest, rfl, (List.append_nil before).symm ▸ now⟩
      · rw [List.append_assoc] at later
        exact ⟨c :: front, back, rfl, later⟩
    · rintro ⟨front, back, split, found⟩
      cases front with
      | nil =>
        rw [List.append_nil] at found
        exact .inl (split ▸ found)
      | cons d front =>
        cases split
        refine .inr ⟨front, back, rfl, ?_⟩
        rwa [List.append_assoc]

theorem describes_replicate (always : ∀ before cs, holds before cs) (before cs : List Char) :
    Describes holds before cs (List.replicate (cs.length + 1) true) := by
  induction cs generalizing before with
  | nil => exact ⟨true, rfl, iff_of_true rfl (always before [])⟩
  | cons c rest ih => exact ⟨true, _, rfl, iff_of_true rfl (always before _), ih _⟩

/-- The column of an item and the later items comes out of that of the later items. -/
theorem Describes.itemColumn {begins : Bool} (describes : Describes (MatchesAt rest) before cs later)
    (first : begins = true ↔ before = []) :
    Describes (MatchesAt (item :: rest)) before cs (item.column begins cs later) := by
  induction cs generalizing before later begins with
  | nil =>
    have here := describes.headD
    refine ⟨_, rfl, ?_⟩
    cases item with
    | start => simp only [Bool.and_eq_true, first, here, matchesAt_start]
    | stop => simp only [here, matchesAt_stop, true_and]
    | once set => exact iff_of_false Bool.false_ne_true not_matchesAt_once_nil
    | many set => exact here.trans matchesAt_many_nil.symm
  | cons c cs ih =>
    have here := describes.headD
    obtain ⟨_, below, rfl, -, more⟩ := describes
    have next := more.headD
    have described := ih more (show false = true ↔ before ++ [c] = [] by simp)
    have lower := described.headD
    refine ⟨_, _, rfl, ?_, described⟩
    cases item with
    | start => simp only [Bool.and_eq_true, first, here, matchesAt_start]
    | stop => simp only [Bool.false_eq_true, matchesAt_stop, reduceCtorEq, false_and]
    | once set =>
      simp only [List.drop_succ_cons, List.drop_zero, Bool.and_eq_true, next, matchesAt_once_cons]
    | many set =>
      simp only [List.drop_succ_cons, List.drop_zero, Bool.or_eq_true, Bool.and_eq_true, here, lower,
        matchesAt_many_cons]

theorem describes_columns (items : List Item) (text : List Char) :
    Describes (MatchesAt items) [] text (columns text items) := by
  induction items with
  | nil => exact describes_replicate matchesAt_nil [] text
  | cons item rest ih => exact ih.itemColumn (by simp)

/-- The library at hand does what is documented. -/
theorem library_isDocumented : library.IsDocumented where
  escape _ := rfl
  isMatch {expression items compiled} parsed compiles text := by
    have same : (parse expression).filter (size · ≤ maxSize) = some compiled := compiles
    rw [parsed] at same
    obtain ⟨⟨⟩, -⟩ := Option.filter_eq_some_iff.mp same
    refine (describes_columns items text.toList).any_iff.trans ?_
    rw [found_iff]
    rfl

end TreeExport.Regex

import Mathlib.Data.List.DropRight
import TreeExport.Proofs.Path
import TreeExport.Source.Request

/-!
# Subtrees by whole elements

Whether a path lies in the subtree of a root is found out from their texts, and it is a matter of
their elements: the subtree of a root holds a path just where the root's elements are the first of
the path's (`Path.inSubtree_iff`).  What filters let through follows from that
(`PathFilter.decides_by_elements`).
-/

namespace TreeExport

/-! ## Lists whose elements have partners -/

section Partners

variable {α : Type} {relates : α → α → Prop} {holds : α → Prop} {front back : List α}

/-- What partners have in common is found in both lists or in neither. -/
theorem exists_mem_iff_of_partners
    (partners : (∀ a ∈ front, ∃ b ∈ back, relates a b) ∧ ∀ b ∈ back, ∃ a ∈ front, relates a b)
    (common : ∀ a b, relates a b → (holds a ↔ holds b)) :
    (∃ a ∈ front, holds a) ↔ ∃ b ∈ back, holds b := by
  constructor
  · rintro ⟨a, member, held⟩
    obtain ⟨b, partner, related⟩ := partners.1 a member
    exact ⟨b, partner, (common a b related).mp held⟩
  · rintro ⟨b, member, held⟩
    obtain ⟨a, partner, related⟩ := partners.2 b member
    exact ⟨a, partner, (common a b related).mpr held⟩

theorem eq_nil_iff_of_partners
    (partners : (∀ a ∈ front, ∃ b ∈ back, relates a b) ∧ ∀ b ∈ back, ∃ a ∈ front, relates a b) :
    front = [] ↔ back = [] := by
  have some : (∃ a ∈ front, True) ↔ ∃ b ∈ back, True :=
    exists_mem_iff_of_partners partners fun _ _ _ => Iff.rfl
  simpa only [and_true, not_exists, ← List.eq_nil_iff_forall_not_mem] using not_congr some

end Partners

namespace Path

variable {root path above below : String}

/-- The text is a normal path, with any number of slashes behind it. -/
def IsRoot (root : String) : Prop :=
  ∃ path count, IsNormal path ∧ root.toList = path.toList ++ List.replicate count '/'

/-- The same roots are in both lists, in any order and number, if slashes at their ends are left
out of account. -/
def SameRoots (roots others : List String) : Prop :=
  ∀ trimmed, (∃ root ∈ roots, trimEnd root.toList = trimmed) ↔
    ∃ root ∈ others, trimEnd root.toList = trimmed

/-! ## Slashes at the end -/

theorem exists_trimEnd (cs : List Char) : ∃ count, cs = trimEnd cs ++ List.replicate count '/' := by
  refine ⟨(cs.rtakeWhile (· == '/')).length, ?_⟩
  have slashes : cs.rtakeWhile (· == '/') =
      List.replicate (cs.rtakeWhile (· == '/')).length '/' := by
    refine List.eq_replicate_iff.mpr ⟨rfl, fun c member => ?_⟩
    simpa using List.mem_rtakeWhile_imp member
  rw [← slashes]
  exact List.rdropWhile_append_rtakeWhile.symm

theorem trimEnd_append_replicate (cs : List Char) (count : Nat) :
    trimEnd (cs ++ List.replicate count '/') = trimEnd cs := by
  induction count with
  | zero => rw [List.replicate_zero, List.append_nil]
  | succ count ih =>
    rw [List.replicate_succ', ← List.append_assoc]
    exact (List.rdropWhile_concat_pos _ _ _ rfl).trans ih

theorem trimEnd_concat {c : Char} (front : List Char) (other : c ≠ '/') :
    trimEnd (front ++ [c]) = front ++ [c] :=
  List.rdropWhile_concat_neg _ _ _ (by simpa using other)

theorem trimEnd_ne_slash (cs : List Char) : trimEnd cs ≠ ['/'] := by
  intro same
  have again : trimEnd (trimEnd cs) = trimEnd cs := List.rdropWhile_idempotent _ _
  rw [same] at again
  cases again

/-- A spelling does not end with a slash. -/
theorem trimEnd_spell {elements : List (List Char)}
    (each : ∀ element ∈ elements, IsElement element) : trimEnd (spell elements) = spell elements := by
  rcases List.eq_nil_or_concat' elements with rfl | ⟨front, last, rfl⟩
  · rfl
  · have isElement := each last List.mem_concat_self
    obtain none | ⟨letters, c, rfl⟩ := List.eq_nil_or_concat' last
    · exact absurd none isElement.nonempty
    · have other : c ≠ '/' := fun same =>
        isElement.noSlash (same ▸ List.mem_append_right _ List.mem_cons_self)
      have split : spell (front ++ [letters ++ [c]]) = spell front ++ '/' :: letters ++ [c] := by
        simp
      rw [split]
      exact trimEnd_concat _ other

theorem elementsOf_trimEnd (cs : List Char) : elementsOf (trimEnd cs) = elementsOf cs := by
  obtain ⟨count, slashes⟩ := exists_trimEnd cs
  rw [← elementsOf_append_replicate (trimEnd cs) count, ← slashes]

/-- Without the slashes at its end a root is the spelling of its elements. -/
theorem IsRoot.trimEnd_eq (isRoot : IsRoot root) :
    trimEnd root.toList = spell (elements root) := by
  obtain ⟨path, count, normal, slashes⟩ := isRoot
  have same : elements root = elements path := by
    change elementsOf _ = elementsOf _
    rw [slashes, elementsOf_append_replicate]
  rw [slashes, trimEnd_append_replicate, normal.toList_eq, same]
  split
  · next none =>
    rw [none]
    rfl
  · exact trimEnd_spell fun _ => isElement_of_mem_elements

theorem IsNormal.isRoot (normal : IsNormal path) : IsRoot path :=
  ⟨path, 0, normal, (List.append_nil _).symm⟩

/-! ## Subtrees -/

theorem inSubtree_iff_exists : inSubtree root path = true ↔
    ∃ rest, trimEnd root.toList ++ rest = path.toList ∧
      (trimEnd root.toList = [] ∨ IsBreak rest) := by
  unfold inSubtree
  dsimp only
  split
  · next none =>
    rw [List.isEmpty_iff] at none
    rw [none]
    exact ⟨fun _ => ⟨_, rfl, .inl rfl⟩, fun _ => rfl⟩
  · next some =>
    rw [List.isEmpty_iff] at some
    split
    · next rest split =>
      rw [List.isPrefixOf?_eq_some_iff_append_eq] at split
      constructor
      · intro ends
        refine ⟨rest, split, .inr ?_⟩
        cases rest with
        | nil => exact isBreak_nil
        | cons c rest =>
          obtain rfl : c = '/' := by simpa using ends
          exact isBreak_cons rest
      · rintro ⟨other, same, isBreak⟩
        obtain rfl := List.append_cancel_left (split.trans same.symm)
        cases rest with
        | nil => rfl
        | cons c rest => simp [isBreak.resolve_left some c rfl]
    · next none =>
      refine ⟨nofun, fun ⟨rest, same, _⟩ => ?_⟩
      rw [List.isPrefixOf?_eq_some_iff_append_eq.mpr same] at none
      cases none

/-- Whatever the root, a path in its subtree begins with its elements. -/
theorem elements_prefix_of_inSubtree (inside : inSubtree root path = true) :
    elements root <+: elements path := by
  obtain ⟨rest, split, none | isBreak⟩ := inSubtree_iff_exists.mp inside
  · have nothing : elements root = [] := by
      change elementsOf _ = _
      rw [← elementsOf_trimEnd, none]
      rfl
    rw [nothing]
    exact List.nil_prefix
  · refine ⟨elementsOf rest, ?_⟩
    change elementsOf _ ++ _ = elementsOf _
    rw [← split, elementsOf_append_of_isBreak _ isBreak, elementsOf_trimEnd]

/-- A normal path lies in the subtree of a root just where it begins with the root's elements. -/
theorem inSubtree_iff (isRoot : IsRoot root) (normal : IsNormal path) :
    inSubtree root path = true ↔ elements root <+: elements path := by
  refine ⟨elements_prefix_of_inSubtree, fun first => inSubtree_iff_exists.mpr ?_⟩
  rw [isRoot.trimEnd_eq]
  by_cases none : elements root = []
  · exact ⟨_, by rw [none]; rfl, .inl (by rw [none]; rfl)⟩
  · have some : elements path ≠ [] := fun empty => none (List.prefix_nil.mp (empty ▸ first))
    obtain ⟨rest, split, isBreak⟩ := (spell_prefix_iff
      (fun _ member => (isElement_of_mem_elements member).noSlash)
      (fun _ member => (isElement_of_mem_elements member).noSlash)).mpr first
    refine ⟨rest, ?_, .inr isBreak⟩
    rw [split, normal.toList_eq, if_neg some]

/-- The subtree of any root holds whatever lies below a path that it holds. -/
theorem inSubtree_of_below (normal : IsNormal above) (normalBelow : IsNormal below)
    (first : elements above <+: elements below) (inside : inSubtree root above = true) :
    inSubtree root below = true := by
  obtain ⟨rest, split, ends⟩ := inSubtree_iff_exists.mp inside
  refine inSubtree_iff_exists.mpr ?_
  rcases ends with none | isBreak
  · exact ⟨below.toList, by rw [none]; rfl, .inl none⟩
  · by_cases top : elements above = []
    · -- only the root that means everything has the top of the tree in its subtree
      rw [normal.toList_eq, if_pos top] at split
      rcases List.append_eq_singleton_iff.mp split with ⟨none, -⟩ | ⟨slash, -⟩
      · exact ⟨below.toList, by rw [none]; rfl, .inl none⟩
      · exact absurd slash (trimEnd_ne_slash _)
    · obtain ⟨more, whole⟩ := first
      have some : elements below ≠ [] := fun empty =>
        top (List.append_eq_nil_iff.mp (whole.trans empty)).1
      rw [normal.toList_eq, if_neg top] at split
      refine ⟨rest ++ spell more, ?_, .inr (isBreak.append (isBreak_spell more))⟩
      rw [← List.append_assoc, split, normalBelow.toList_eq, if_neg some, ← whole, spell_append]

theorem inSubtree_self (normal : IsNormal path) : inSubtree path path = true :=
  (inSubtree_iff normal.isRoot normal).mpr (List.prefix_refl _)

/-- The root that is nothing but a slash holds every path. -/
theorem inSubtree_slash (path : String) : inSubtree "/" path = true := rfl

/-- A path whose text only goes on within its last element is not below it. -/
theorem inSubtree_append_eq_false (normal : IsNormal path) (below : path ≠ "/") {more : String}
    (goesOn : ¬ IsBreak more.toList) : inSubtree path (path ++ more) = false := by
  have elementsSome : elements path ≠ [] := fun none =>
    below (normal.trans (by rw [none]; rfl))
  have text := normal.toList_eq
  rw [if_neg elementsSome, ← normal.isRoot.trimEnd_eq] at text
  rw [Bool.eq_false_iff]
  intro inside
  obtain ⟨rest, split, ends⟩ := inSubtree_iff_exists.mp inside
  rw [← text, String.toList_append] at split
  rcases ends with none | isBreak
  · rw [normal.isRoot.trimEnd_eq] at none
    cases listed : elements path with
    | nil => exact elementsSome listed
    | cons element rest =>
      rw [listed, spell_cons] at none
      cases none
  · exact goesOn (List.append_cancel_left split ▸ isBreak)

theorem inSubtree_congr {other : String} (same : trimEnd root.toList = trimEnd other.toList) :
    inSubtree root path = inSubtree other path := by
  unfold inSubtree
  rw [same]

theorem SameRoots.partners {roots others : List String} (same : SameRoots roots others) :
    (∀ root ∈ roots, ∃ other ∈ others, trimEnd root.toList = trimEnd other.toList) ∧
      ∀ other ∈ others, ∃ root ∈ roots, trimEnd root.toList = trimEnd other.toList := by
  refine ⟨fun root member => ?_, fun other member => (same _).mpr ⟨other, member, rfl⟩⟩
  obtain ⟨other, partner, trimmed⟩ := (same _).mp ⟨root, member, rfl⟩
  exact ⟨other, partner, trimmed.symm⟩

end Path

namespace PathFilter

open TreeExport.Path

variable {filter other : PathFilter} {path below : String}

/-- The filters have the same roots. -/
def SameRoots (filter other : PathFilter) : Prop :=
  Path.SameRoots filter.included other.included ∧ Path.SameRoots filter.excluded other.excluded

theorem accepts_iff : filter.accepts path = true ↔
    (∀ root ∈ filter.excluded, inSubtree root path = false) ∧
      (filter.included = [] ∨ ∃ root ∈ filter.included, inSubtree root path = true) := by
  simp only [accepts, Bool.and_eq_true, Bool.or_eq_true, Bool.not_eq_true', List.any_eq_false,
    List.any_eq_true, List.isEmpty_iff, Bool.not_eq_true]

/-- What is excluded is so with all that lies below it, whatever is included. -/
theorem accepts_eq_false_of_below {included excluded : List String} (normal : IsNormal path)
    (normalBelow : IsNormal below) (first : elements path <+: elements below)
    (out : ∃ root ∈ excluded, inSubtree root path = true) :
    accepts ⟨included, excluded⟩ below = false := by
  obtain ⟨root, member, inside⟩ := out
  rw [Bool.eq_false_iff]
  intro accepted
  have apart := (accepts_iff.mp accepted).1 root member
  rw [inSubtree_of_below normal normalBelow first inside] at apart
  cases apart

/-- Below an included root only excluded roots keep a path out. -/
theorem accepts_of_included {root : String} (normal : IsNormal path) (isRoot : IsRoot root)
    (member : root ∈ filter.included) (first : elements root <+: elements path)
    (kept : ∀ excluded ∈ filter.excluded, ¬ elements excluded <+: elements path) :
    filter.accepts path = true := by
  refine accepts_iff.mpr ⟨fun excluded out => ?_, .inr ⟨root, member, ?_⟩⟩
  · rw [Bool.eq_false_iff]
    exact fun inside => kept excluded out (elements_prefix_of_inSubtree inside)
  · exact (inSubtree_iff isRoot normal).mpr first

theorem exists_inSubtree_congr {roots others : List String} (same : Path.SameRoots roots others) :
    (∃ root ∈ roots, inSubtree root path = true) ↔ ∃ root ∈ others, inSubtree root path = true :=
  exists_mem_iff_of_partners same.partners fun _ _ trimmed => by rw [inSubtree_congr trimmed]

/-- Filters with the same roots let the same paths through. -/
theorem SameRoots.accepts_eq (same : filter.SameRoots other) (path : String) :
    filter.accepts path = other.accepts path := by
  have excluded : (∀ root ∈ filter.excluded, inSubtree root path = false) ↔
      ∀ root ∈ other.excluded, inSubtree root path = false := by
    have inside := not_congr (exists_inSubtree_congr same.2 : _ ↔ ∃ root ∈ _, inSubtree root path = true)
    simpa only [not_exists, not_and, Bool.not_eq_true] using inside
  rw [Bool.eq_iff_iff, accepts_iff, accepts_iff, excluded, eq_nil_iff_of_partners same.1.partners,
    exists_inSubtree_congr same.1]

/-- A filter with two lists of included roots lets through what a filter with either does. -/
theorem accepts_append {front back excluded : List String} (some : front ≠ []) (more : back ≠ []) :
    accepts ⟨front ++ back, excluded⟩ path =
      (accepts ⟨front, excluded⟩ path || accepts ⟨back, excluded⟩ path) := by
  have someEmpty : front.isEmpty = false := by simpa using some
  have moreEmpty : back.isEmpty = false := by simpa using more
  have bothEmpty : (front ++ back).isEmpty = false := by simp [some]
  simp only [accepts, someEmpty, moreEmpty, bothEmpty, List.any_append, Bool.false_or,
    Bool.and_or_distrib_left]

end PathFilter

namespace BatchRequest

open TreeExport.Path

variable {request : BatchRequest} {path below : String}

/-- The request with other filters. -/
def withFilters (request : BatchRequest) (filters : List PathFilter) : BatchRequest :=
  { request with filters := filters }

/-- Each filter of either list has one with the same roots in the other. -/
def SameFilters (filters others : List PathFilter) : Prop :=
  (∀ filter ∈ filters, ∃ other ∈ others, filter.SameRoots other) ∧
    ∀ other ∈ others, ∃ filter ∈ filters, filter.SameRoots other

theorem accepts_iff : request.accepts path = true ↔
    request.filters = [] ∨ ∃ filter ∈ request.filters, filter.accepts path = true := by
  simp only [accepts, Bool.or_eq_true, List.isEmpty_iff, List.any_eq_true]

/-- What all filters exclude is not asked for, with all that lies below it. -/
theorem accepts_eq_false_of_below (normal : IsNormal path) (normalBelow : IsNormal below)
    (first : elements path <+: elements below) (some : request.filters ≠ [])
    (out : ∀ filter ∈ request.filters, ∃ root ∈ filter.excluded, inSubtree root path = true) :
    request.accepts below = false := by
  rw [Bool.eq_false_iff]
  intro accepted
  rcases accepts_iff.mp accepted with none | ⟨filter, member, through⟩
  · exact some none
  · rw [PathFilter.accepts_eq_false_of_below normal normalBelow first (out filter member)] at through
    cases through

theorem accepts_congr {filters others : List PathFilter} (same : SameFilters filters others) :
    (request.withFilters filters).accepts path = (request.withFilters others).accepts path := by
  have some : (∃ filter ∈ filters, filter.accepts path = true) ↔
      ∃ other ∈ others, other.accepts path = true :=
    exists_mem_iff_of_partners same fun _ _ roots => by rw [roots.accepts_eq path]
  rw [Bool.eq_iff_iff, accepts_iff, accepts_iff]
  exact or_congr (eq_nil_iff_of_partners same) some

/-- Among other filters, too, two can stand for one with the included roots of both. -/
theorem accepts_divided {front back excluded : List String} (some : front ≠ []) (more : back ≠ [])
    (before after : List PathFilter) :
    (request.withFilters (before ++ ⟨front ++ back, excluded⟩ :: after)).accepts path =
      (request.withFilters
        (before ++ ⟨front, excluded⟩ :: ⟨back, excluded⟩ :: after)).accepts path := by
  have filled (filter : PathFilter) (rest : List PathFilter) :
      (before ++ filter :: rest).isEmpty = false := by
    simp only [List.isEmpty_eq_false_iff, ne_eq, List.append_eq_nil_iff, reduceCtorEq, and_false,
      not_false_eq_true]
  simp only [accepts, withFilters, List.any_append, List.any_cons, filled,
    PathFilter.accepts_append some more, Bool.or_assoc]

end BatchRequest

/-! ## What filters let through -/

/-- The subtree of a root holds a normal path just where the root's elements are the first of the
path's.  What is excluded is so with all that lies below it; what lies below an included root is let
through unless it is, or lies below, one that is excluded; the order and number of roots and filters
and the slashes behind roots make no difference; and a filter with two lists of included roots can be
divided into two filters. -/
theorem PathFilter.decides_by_elements {path : String} (normal : Path.IsNormal path) :
    ((∀ root, Path.IsRoot root →
        (Path.inSubtree root path = true ↔ Path.elements root <+: Path.elements path)) ∧
      Path.inSubtree "/" path = true ∧
      ∀ more : String, path ≠ "/" → ¬ Path.IsBreak more.toList →
        Path.inSubtree path (path ++ more) = false) ∧
    (∀ below, Path.IsNormal below → Path.elements path <+: Path.elements below →
      (∀ included excluded, (∃ root ∈ excluded, Path.inSubtree root path = true) →
        accepts ⟨included, excluded⟩ below = false) ∧
      ∀ request : BatchRequest, request.filters ≠ [] →
        (∀ filter ∈ request.filters, ∃ root ∈ filter.excluded, Path.inSubtree root path = true) →
        request.accepts below = false) ∧
    (∀ (filter : PathFilter) (root : String), root ∈ filter.included → Path.IsRoot root →
      Path.elements root <+: Path.elements path →
        ((∃ excluded ∈ filter.excluded, Path.IsRoot excluded ∧
            Path.elements excluded <+: Path.elements path) → filter.accepts path = false) ∧
        ((∀ excluded ∈ filter.excluded, ¬ Path.elements excluded <+: Path.elements path) →
          filter.accepts path = true ∧
            ∀ request : BatchRequest, filter ∈ request.filters → request.accepts path = true)) ∧
    ((∀ filter other : PathFilter, filter.SameRoots other →
        filter.accepts path = other.accepts path) ∧
      ∀ (request : BatchRequest) (filters others : List PathFilter),
        BatchRequest.SameFilters filters others →
          (request.withFilters filters).accepts path =
            (request.withFilters others).accepts path) ∧
    ∀ front back excluded : List String, front ≠ [] → back ≠ [] →
      accepts ⟨front ++ back, excluded⟩ path =
        (accepts ⟨front, excluded⟩ path || accepts ⟨back, excluded⟩ path) ∧
      ∀ (request : BatchRequest) (before after : List PathFilter),
        (request.withFilters (before ++ ⟨front ++ back, excluded⟩ :: after)).accepts path =
          (request.withFilters
            (before ++ ⟨front, excluded⟩ :: ⟨back, excluded⟩ :: after)).accepts path := by
  refine ⟨⟨fun root isRoot => Path.inSubtree_iff isRoot normal, Path.inSubtree_slash path,
      fun more below goesOn => Path.inSubtree_append_eq_false normal below goesOn⟩,
    fun below normalBelow first => ⟨fun included excluded out => ?_, fun request some out => ?_⟩,
    fun filter root member isRoot first => ⟨?_, fun kept => ?_⟩,
    ⟨fun filter other same => same.accepts_eq path, fun request filters others same =>
      BatchRequest.accepts_congr same⟩,
    fun front back excluded some more => ⟨accepts_append some more, fun request before after =>
      BatchRequest.accepts_divided some more before after⟩⟩
  · exact accepts_eq_false_of_below normal normalBelow first out
  · exact BatchRequest.accepts_eq_false_of_below normal normalBelow first some out
  · rintro ⟨excluded, out, excludedRoot, above⟩
    exact accepts_eq_false_of_below normal normal (List.prefix_refl _)
      ⟨excluded, out, (Path.inSubtree_iff excludedRoot normal).mpr above⟩
  · have through := accepts_of_included normal isRoot member first kept
    exact ⟨through, fun request listed =>
      BatchRequest.accepts_iff.mpr (.inr ⟨filter, listed, through⟩)⟩

/-- The theorem at a path with an included root above it, a root beside it and a path below. -/
theorem PathFilter.assets_decided_by_elements :
    Path.IsNormal "/content/dam" ∧
      Path.inSubtree "/content//" "/content/dam" = true ∧
      Path.inSubtree "/content/dam" "/content/damaged" = false ∧
      accepts ⟨["/"], ["/content/"]⟩ "/content/dam/logo" = false ∧
      accepts ⟨["/content/"], ["/content/d"]⟩ "/content/dam" = true ∧
      accepts ⟨["/etc", "/content/"], []⟩ "/content/dam" =
        (accepts ⟨["/etc"], []⟩ "/content/dam" || accepts ⟨["/content/"], []⟩ "/content/dam") := by
  have normal : Path.IsNormal "/content/dam" := by decide +kernel
  have isRoot : Path.IsRoot "/content/" := ⟨"/content", 1, by decide +kernel, by decide +kernel⟩
  have isRootTwice : Path.IsRoot "/content//" := ⟨"/content", 2, by decide +kernel, by decide +kernel⟩
  obtain ⟨⟨inSubtree, -, goesOn⟩, excludes, includes, -, divided⟩ := decides_by_elements normal
  refine ⟨normal, (inSubtree _ isRootTwice).mpr (by decide +kernel),
    goesOn "aged" (by decide +kernel) ?_, ?_, ?_, ?_⟩
  · intro isBreak
    exact absurd (isBreak 'a' (by decide +kernel)) (by decide)
  · exact (excludes "/content/dam/logo" (by decide +kernel) (by decide +kernel)).1 _ _
      ⟨"/content/", by decide, by decide +kernel⟩
  · exact ((includes ⟨["/content/"], ["/content/d"]⟩ "/content/" (by decide) isRoot
      (by decide +kernel)).2 (by decide +kernel)).1
  · exact (divided ["/etc"] ["/content/"] [] (List.cons_ne_nil _ _) (List.cons_ne_nil _ _)).1

end TreeExport

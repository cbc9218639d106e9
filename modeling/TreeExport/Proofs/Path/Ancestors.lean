import Mathlib.Data.List.Infix
import TreeExport.Proofs.Filter.Subtree
import TreeExport.Statistics

/-!
# Ancestors by their elements

An ancestor of a path has the first elements of that path (`Path.elements_ancestor`), and all that is
said of depths, of ancestors of ancestors, of hiding and of subtrees follows from that.  What it is
written as is tidy: the text begins with a slash, has no two slashes in a row, and none at its end
(`Path.isNormal_iff`).  `Path.ancestors_by_elements` puts these laws together, with those of the regions
that rejected nodes are counted by and of the records that are made for nodes.
-/

namespace TreeExport

namespace Path

variable {path : String} {elements : List (List Char)}

/-! ## Texts of normal paths -/

/-- The text begins with a slash, has no two slashes in a row, and none at its end unless it is
nothing but a slash. -/
structure IsTidy (cs : List Char) : Prop where
  rooted : cs.head? = some '/'
  apart : ¬ ['/', '/'] <:+: cs
  ends : cs = ['/'] ∨ cs.getLast? ≠ some '/'

instance (cs : List Char) : Decidable (IsTidy cs) :=
  decidable_of_iff (cs.head? = some '/' ∧ ¬ ['/', '/'] <:+: cs ∧
      (cs = ['/'] ∨ cs.getLast? ≠ some '/'))
    ⟨fun ⟨rooted, apart, ends⟩ => ⟨rooted, apart, ends⟩,
      fun tidy => ⟨tidy.rooted, tidy.apart, tidy.ends⟩⟩

/-- The stretches of a text between slashes spell it, behind one more slash. -/
theorem spell_splitAtEach (cs : List Char) : spell (splitAtEach '/' cs) = '/' :: cs := by
  induction cs with
  | nil => rfl
  | cons c rest ih =>
    rw [splitAtEach]
    split
    · next slash => rw [spell_cons, ih, slash, List.nil_append]
    · cases pieces : splitAtEach '/' rest with
      | nil => exact absurd pieces (splitAtEach_ne_nil '/' rest)
      | cons first more =>
        rw [pieces, spell_cons] at ih
        rw [spell_cons, List.cons_append, (List.cons.inj ih).2]

theorem splitAtEach_spell (noSlash : ∀ element ∈ elements, '/' ∉ element) :
    splitAtEach '/' (spell elements) = [] :: elements := by
  induction elements with
  | nil => rfl
  | cons element rest ih =>
    have first := splitAtEach_of_notMem (noSlash element List.mem_cons_self)
    have later := ih fun other member => noSlash other (List.mem_cons_of_mem _ member)
    have front : splitAtEach '/' (element ++ spell rest) = element :: rest := by
      cases rest with
      | nil => rw [spell_nil, List.append_nil, first]
      | cons next others =>
        rw [spell_cons] at later ⊢
        rw [splitAtEach_append_cons, first]
        exact congrArg (element :: ·) (List.cons.inj later).2
    rw [spell_cons, splitAtEach, if_pos rfl, front]

/-- A stretch without a character stands between two slashes in a row or behind the last one. -/
theorem slashes_of_mem_tail {cs : List Char} (empty : [] ∈ (splitAtEach '/' cs).tail) :
    ['/', '/'] <:+: cs ∨ cs.getLast? = some '/' := by
  induction cs with
  | nil => cases empty
  | cons c rest ih =>
    have deeper (empty : [] ∈ (splitAtEach '/' rest).tail) :
        ['/', '/'] <:+: c :: rest ∨ (c :: rest).getLast? = some '/' := by
      refine (ih empty).imp (fun inside => inside.trans (List.suffix_cons _ _).isInfix) ?_
      intro last
      rw [List.getLast?_cons, last]
      rfl
    rw [splitAtEach] at empty
    split at empty
    · next slash =>
      subst slash
      rw [List.tail_cons] at empty
      cases rest with
      | nil => exact .inr rfl
      | cons d rest =>
        by_cases again : d = '/'
        · subst again
          exact .inl (List.prefix_append ['/', '/'] rest).isInfix
        · -- the first stretch of the rest has a character
          rw [splitAtEach, if_neg again] at empty
          refine deeper ?_
          rw [splitAtEach, if_neg again]
          cases pieces : splitAtEach '/' rest with
          | nil => exact absurd pieces (splitAtEach_ne_nil '/' rest)
          | cons first more =>
            rw [pieces] at empty
            exact (List.mem_cons.mp empty).resolve_left (List.cons_ne_nil _ _).symm
    · cases pieces : splitAtEach '/' rest with
      | nil => exact absurd pieces (splitAtEach_ne_nil '/' rest)
      | cons first more =>
        rw [pieces] at empty
        exact deeper (pieces ▸ empty)

/-- A normal path but the root has no empty stretch but the one before its first slash. -/
theorem IsNormal.splitAtEach_eq (normal : IsNormal path) (below : Path.elements path ≠ []) :
    splitAtEach '/' path.toList = [] :: Path.elements path := by
  have text := normal.toList_eq
  rw [if_neg below] at text
  rw [text]
  exact splitAtEach_spell fun element member => (isElement_of_mem_elements member).noSlash

theorem IsNormal.isTidy (normal : IsNormal path) : IsTidy path.toList := by
  have text := normal.toList_eq
  by_cases top : Path.elements path = []
  · rw [text, if_pos top]
    decide
  rw [if_neg top] at text
  -- behind a slash comes an element
  have full {front back : List Char} (split : path.toList = front ++ '/' :: back) :
      [] ∉ splitAtEach '/' back := by
    intro inside
    have pieces := normal.splitAtEach_eq top
    rw [split, splitAtEach_append_cons] at pieces
    obtain ⟨first, others, some⟩ := List.exists_cons_of_ne_nil (splitAtEach_ne_nil '/' front)
    rw [some] at pieces
    have member : [] ∈ Path.elements path := by
      rw [← (List.cons.inj pieces).2]
      exact List.mem_append_right _ inside
    exact (isElement_of_mem_elements member).nonempty rfl
  refine ⟨?_, ?_, .inr ?_⟩
  · obtain ⟨element, rest, some⟩ := List.exists_cons_of_ne_nil top
    rw [text, some, spell_cons]
    rfl
  · rintro ⟨front, back, split⟩
    rw [List.append_assoc] at split
    exact full split.symm List.mem_cons_self
  · intro last
    obtain ⟨front, split⟩ := List.getLast?_eq_some_iff.mp last
    exact full split List.mem_cons_self

theorem isNormal_of_isTidy (tidy : IsTidy path.toList) : IsNormal path := by
  rcases tidy.ends with slash | last
  · have top : path = "/" := String.toList_inj.mp slash
    rw [top]
    rfl
  obtain ⟨rest, text⟩ := List.head?_eq_some_iff.mp tidy.rooted
  have pieces : splitAtEach '/' path.toList = [] :: splitAtEach '/' rest := by
    rw [text, splitAtEach, if_pos rfl]
  have full : [] ∉ splitAtEach '/' rest := by
    intro empty
    have tail : [] ∈ (splitAtEach '/' path.toList).tail := by
      rw [pieces]
      exact empty
    exact (slashes_of_mem_tail tail).elim tidy.apart last
  have same : Path.elements path = splitAtEach '/' rest := by
    rw [Path.elements, pieces, List.filter_cons_of_neg (by decide), List.filter_eq_self]
    intro piece member
    rw [Bool.not_eq_true', List.isEmpty_eq_false_iff]
    exact fun none => full (none ▸ member)
  refine String.toList_inj.mp ?_
  rw [toList_ofElements, same, if_neg (splitAtEach_ne_nil '/' rest), spell_splitAtEach, text]

/-- A path is normal just where its text is tidy. -/
theorem isNormal_iff : IsNormal path ↔ IsTidy path.toList :=
  ⟨IsNormal.isTidy, isNormal_of_isTidy⟩

/-! ## Ancestors -/

variable {d e : Nat}

theorem elements_ancestor (path : String) (d : Nat) :
    Path.elements (ancestor path d) = (Path.elements path).take d :=
  elements_ofElements fun _ member => isElement_of_mem_elements (List.mem_of_mem_take member)

theorem isNormal_ancestor (path : String) (d : Nat) : IsNormal (ancestor path d) :=
  isNormal_ofElements fun _ member => isElement_of_mem_elements (List.mem_of_mem_take member)

theorem depth_ancestor (path : String) (d : Nat) :
    depth (ancestor path d) = min d (depth path) := by
  rw [depth, elements_ancestor, List.length_take, depth]

theorem ancestor_ancestor (path : String) (d e : Nat) :
    ancestor (ancestor path d) e = ancestor path (min d e) := by
  rw [ancestor, elements_ancestor, List.take_take, Nat.min_comm, ancestor]

/-- All elements of a path make up a normal one. -/
theorem elements_ancestor_depth (path : String) :
    Path.elements (ancestor path (depth path)) = Path.elements path := by
  rw [elements_ancestor, depth, List.take_length]

/-- A normal path has no other ancestor than itself as deep as it or deeper. -/
theorem IsNormal.ancestor_eq (normal : IsNormal path) (deep : depth path ≤ d) :
    ancestor path d = path := by
  rw [ancestor, List.take_of_length_le deep, ← normal]

/-- A node is hidden if one of its elements begins with a colon. -/
theorem isHidden_iff : isHidden path = true ↔
    ∃ element ∈ Path.elements path, element.head? = some ':' := by
  rw [isHidden, List.any_eq_true]
  constructor
  · rintro ⟨piece, member, colon⟩
    rw [beq_iff_eq] at colon
    refine ⟨piece, List.mem_filter.mpr ⟨member, ?_⟩, colon⟩
    rw [Bool.not_eq_true', List.isEmpty_eq_false_iff]
    rintro rfl
    cases colon
  · rintro ⟨element, member, colon⟩
    exact ⟨element, (List.mem_filter.mp member).1, beq_iff_eq.mpr colon⟩

/-- What lies below a hidden node is hidden. -/
theorem isHidden_of_ancestor (hidden : isHidden (ancestor path d) = true) :
    isHidden path = true := by
  obtain ⟨element, member, colon⟩ := isHidden_iff.mp hidden
  rw [elements_ancestor] at member
  exact isHidden_iff.mpr ⟨element, List.mem_of_mem_take member, colon⟩

theorem inSubtree_ancestor (normal : IsNormal path) (d : Nat) :
    inSubtree (ancestor path d) path = true := by
  rw [inSubtree_iff (isNormal_ancestor path d).isRoot normal, elements_ancestor]
  exact List.take_prefix d _

end Path

/-! ## Regions -/

theorem depth_regionOf (path : String) :
    Path.depth (regionOf path) = min regionDepth (Path.depth path - 1) := by
  rw [regionOf, Path.depth_ancestor]
  omega

theorem depth_regionOf_lt {path : String} (normal : Path.IsNormal path) (below : path ≠ "/") :
    Path.depth (regionOf path) < Path.depth path := by
  have some : 0 < Path.depth path := by
    refine List.length_pos_iff.mpr fun none => below ?_
    rw [normal, none]
    rfl
  rw [depth_regionOf]
  omega

/-! ## Records of nodes -/

namespace Record

/-- An id is divided at its first colon. -/
theorem idParts?_append {depth place : List Char} (noColon : ':' ∉ depth) :
    idParts? (depth ++ ':' :: place) = some (depth, place) := by
  have other : ∀ c ∈ depth, (c != ':') = true := fun c member =>
    bne_iff_ne.mpr fun same => noColon (same ▸ member)
  rw [idParts?, List.dropWhile_append_of_pos other, List.takeWhile_append_of_pos other]
  simp

/-- A record of a node is found where the node is, whatever colons its path holds. -/
theorem locate_node {path : String} (rooted : Path.isRooted path = true)
    (fields : List (String × Json)) : (node path fields).locate = .ok (.node path) := by
  have isDigit : ∀ c ∈ Nat.toDigits 10 (Path.depth path), c.isDigit = true := fun _ =>
    Nat.isDigit_of_mem_toDigits (by decide) (by decide)
  have noColon : ':' ∉ Nat.toDigits 10 (Path.depth path) := fun member =>
    absurd (isDigit _ member) (by decide)
  have id : (node path fields).id.toList =
      Nat.toDigits 10 (Path.depth path) ++ ':' :: path.toList := by
    simp only [node, toString, String.toList_append, Nat.toList_repr, List.append_assoc]
    rfl
  obtain ⟨rest, text⟩ : ∃ rest, path.toList = '/' :: rest := by
    rw [Path.isRooted, beq_iff_eq] at rooted
    exact List.head?_eq_some_iff.mp rooted
  have digits : (Nat.toDigits 10 (Path.depth path)).isEmpty = false :=
    List.isEmpty_eq_false_iff.mpr Nat.toDigits_ne_nil
  have all : (Nat.toDigits 10 (Path.depth path)).all (·.isDigit) = true :=
    List.all_eq_true.mpr isDigit
  simp only [locate, id, idParts?_append noColon, digits, all, text]
  rw [← text, String.ofList_toList]
  rfl

end Record

/-! ## All laws -/

/-- An ancestor is as deep as is asked for, but no deeper than the path; an ancestor of an ancestor is
the higher of both; the ancestor of all elements is the normal form of the path, which has its elements
and is its own ancestor.  Below a hidden node all is hidden, and a path lies in the subtree of each of
its ancestors.  The region of a path is a normal path, at depth three at most, and above every normal
path but the root.  A record of a node is found at the path that it was made for. -/
theorem Path.ancestors_by_elements (path : String) :
    ((∀ d, depth (ancestor path d) = min d (depth path)) ∧
      ∀ d e, ancestor (ancestor path d) e = ancestor path (min d e)) ∧
    ((IsNormal path ↔ IsTidy path.toList) ∧
      IsTidy (ancestor path (depth path)).toList ∧
      elements (ancestor path (depth path)) = elements path ∧
      (∀ d, depth path ≤ d →
        ancestor (ancestor path (depth path)) d = ancestor path (depth path)) ∧
      (IsNormal path → ancestor path (depth path) = path)) ∧
    (∀ d, isHidden (ancestor path d) = true → isHidden path = true) ∧
    (IsNormal path → ∀ d, inSubtree (ancestor path d) path = true) ∧
    (IsTidy (regionOf path).toList ∧
      (depth (regionOf path) : Int) = min 3 (max ((depth path : Int) - 1) 0) ∧
      (IsNormal path → path ≠ "/" → inSubtree (regionOf path) path = true ∧
        regionOf path ≠ path ∧ depth (regionOf path) < depth path)) ∧
    (isRooted path = true → ∀ fields : List (String × Json),
      (Record.node path fields).locate = .ok (.node path)) := by
  refine ⟨⟨depth_ancestor path, ancestor_ancestor path⟩, ⟨isNormal_iff, ?_, ?_, fun d deep => ?_, ?_⟩,
    fun d => isHidden_of_ancestor, fun normal => inSubtree_ancestor normal, ⟨?_, ?_, ?_⟩,
    Record.locate_node⟩
  · exact isNormal_iff.mp (isNormal_ancestor path _)
  · exact elements_ancestor_depth path
  · rw [ancestor_ancestor, Nat.min_eq_left deep]
  · exact fun normal => normal.ancestor_eq (Nat.le_refl _)
  · exact isNormal_iff.mp (isNormal_ancestor path _)
  · rw [depth_regionOf, regionDepth]
    omega
  · intro normal below
    have higher := depth_regionOf_lt normal below
    refine ⟨inSubtree_ancestor normal _, fun same => ?_, higher⟩
    rw [same] at higher
    exact Nat.lt_irrefl _ higher

/-- A hidden node five levels below the root, and its record. -/
theorem Path.colons_by_elements :
    IsNormal "/a/:b:c/d/e/f" ∧ isHidden "/a/:b:c/d/e/f" = true ∧
      inSubtree (ancestor "/a/:b:c/d/e/f" 2) "/a/:b:c/d/e/f" = true ∧
      regionOf "/a/:b:c/d/e/f" ≠ "/a/:b:c/d/e/f" ∧
      (Record.node "/a/:b:c/d/e/f" []).locate = .ok (.node "/a/:b:c/d/e/f") := by
  obtain ⟨-, ⟨tidy, -⟩, hidden, inside, ⟨-, -, above⟩, located⟩ :=
    ancestors_by_elements "/a/:b:c/d/e/f"
  have normal : IsNormal "/a/:b:c/d/e/f" := tidy.mpr (by decide +kernel)
  exact ⟨normal, hidden 2 (by decide +kernel), inside normal 2, (above normal (by decide)).2.1,
    located (by decide +kernel) []⟩

end TreeExport

import TreeExport.Proofs.Files.Places

/-!
# Elements of paths

A normal path is spelled by its elements, each behind a slash (`Path.IsNormal.toList_eq`), and such a
spelling can be read in one way only: one spelling goes on as another at a slash or at its end just
where the elements of the one are the first elements of the other (`Path.spell_prefix_iff`).
-/

namespace TreeExport

namespace Path

/-- The text can be an element of a path: it is not empty and holds no slash. -/
structure IsElement (element : List Char) : Prop where
  nonempty : element ≠ []
  noSlash : '/' ∉ element

/-- The elements of the path that a text is. -/
def elementsOf (cs : List Char) : List (List Char) :=
  (splitAtEach '/' cs).filter (!·.isEmpty)

/-- The text of some elements, each behind a slash. -/
def spell (elements : List (List Char)) : List Char :=
  elements.flatMap ('/' :: ·)

/-- The text is at its end or goes on with a slash. -/
def IsBreak (rest : List Char) : Prop :=
  ∀ c ∈ rest.head?, c = '/'

variable {above below : List (List Char)}

@[simp] theorem spell_nil : spell [] = [] := rfl

@[simp] theorem spell_cons (element : List Char) (rest : List (List Char)) :
    spell (element :: rest) = '/' :: (element ++ spell rest) := by
  simp [spell]

@[simp] theorem spell_append (front back : List (List Char)) :
    spell (front ++ back) = spell front ++ spell back :=
  List.flatMap_append

theorem isBreak_nil : IsBreak [] := nofun

theorem isBreak_cons (rest : List Char) : IsBreak ('/' :: rest) := by
  rintro c ⟨⟩
  rfl

theorem isBreak_spell : (elements : List (List Char)) → IsBreak (spell elements)
  | [] => isBreak_nil
  | _ :: _ => by
    rw [spell_cons]
    exact isBreak_cons _

theorem IsBreak.append {front back : List Char} (first : IsBreak front) (second : IsBreak back) :
    IsBreak (front ++ back) := by
  cases front with
  | nil => exact second
  | cons c rest => exact first

/-! ## Reading elements -/

theorem isElement_of_mem_elementsOf {cs element : List Char} (member : element ∈ elementsOf cs) :
    IsElement element := by
  obtain ⟨piece, nonempty⟩ := List.mem_filter.mp member
  refine ⟨?_, notMem_of_mem_splitAtEach piece⟩
  rintro rfl
  cases nonempty

theorem isElement_of_mem_elements {path : String} {element : List Char}
    (member : element ∈ elements path) : IsElement element :=
  isElement_of_mem_elementsOf member

theorem elementsOf_append_cons (front back : List Char) :
    elementsOf (front ++ '/' :: back) = elementsOf front ++ elementsOf back := by
  rw [elementsOf, splitAtEach_append_cons, List.filter_append]
  rfl

theorem elementsOf_append_of_isBreak {back : List Char} (front : List Char) (isBreak : IsBreak back) :
    elementsOf (front ++ back) = elementsOf front ++ elementsOf back := by
  cases back with
  | nil => simp [elementsOf, splitAtEach]
  | cons c rest =>
    obtain rfl : c = '/' := isBreak c rfl
    rw [elementsOf_append_cons, ← List.nil_append ('/' :: rest), elementsOf_append_cons]
    rfl

theorem elementsOf_eq_singleton {element : List Char} (isElement : IsElement element) :
    elementsOf element = [element] := by
  rw [elementsOf, splitAtEach_of_notMem isElement.noSlash, List.filter_cons_of_pos]
  · rfl
  · cases element with
    | nil => exact absurd rfl isElement.nonempty
    | cons => rfl

theorem elementsOf_replicate (count : Nat) : elementsOf (List.replicate count '/') = [] := by
  induction count with
  | zero => rfl
  | succ count ih =>
    rw [List.replicate_succ, ← List.nil_append ('/' :: _), elementsOf_append_cons, ih]
    rfl

theorem elementsOf_append_replicate (cs : List Char) (count : Nat) :
    elementsOf (cs ++ List.replicate count '/') = elementsOf cs := by
  have isBreak : IsBreak (List.replicate count '/') := by
    cases count with
    | zero => exact isBreak_nil
    | succ count => exact isBreak_cons _
  rw [elementsOf_append_of_isBreak cs isBreak, elementsOf_replicate, List.append_nil]

/-- A spelling is read back as the elements that it spells. -/
theorem elementsOf_spell {elements : List (List Char)}
    (each : ∀ element ∈ elements, IsElement element) : elementsOf (spell elements) = elements := by
  induction elements with
  | nil => rfl
  | cons element rest ih =>
    have first := elementsOf_eq_singleton (each element List.mem_cons_self)
    have later := ih fun other member => each other (List.mem_cons_of_mem _ member)
    rw [spell_cons, ← List.nil_append ('/' :: _), elementsOf_append_cons,
      elementsOf_append_of_isBreak _ (isBreak_spell rest), first, later]
    rfl

/-! ## Normal paths -/

theorem toList_ofElements (elements : List (List Char)) :
    (ofElements elements).toList = if elements = [] then ['/'] else spell elements := by
  cases elements with
  | nil => rfl
  | cons element rest => exact String.toList_ofList

theorem elements_ofElements {elements : List (List Char)}
    (each : ∀ element ∈ elements, IsElement element) :
    Path.elements (ofElements elements) = elements := by
  change elementsOf _ = _
  rw [toList_ofElements]
  split
  · next none =>
    rw [none]
    rfl
  · exact elementsOf_spell each

/-- Elements that can be those of a path spell a normal one. -/
theorem isNormal_ofElements {elements : List (List Char)}
    (each : ∀ element ∈ elements, IsElement element) : IsNormal (ofElements elements) := by
  rw [IsNormal, elements_ofElements each]

instance (path : String) : Decidable (IsNormal path) :=
  inferInstanceAs (Decidable (path = ofElements (elements path)))

namespace IsNormal

variable {path other : String}

theorem toList_eq (normal : IsNormal path) :
    path.toList = if elements path = [] then ['/'] else spell (elements path) := by
  rw [← toList_ofElements, ← normal]

/-- Normal paths with the same elements are the same. -/
theorem ext (normal : IsNormal path) (otherNormal : IsNormal other)
    (same : elements path = elements other) : path = other := by
  rw [normal, otherNormal, same]

end IsNormal

/-! ## Spellings -/

/-- What stands before a slash or the end of a text is one stretch of it. -/
theorem eq_of_append_isBreak {front other back rest : List Char} (noSlash : '/' ∉ front)
    (otherNoSlash : '/' ∉ other) (backBreak : IsBreak back) (restBreak : IsBreak rest)
    (same : front ++ back = other ++ rest) : front = other ∧ back = rest := by
  induction front generalizing other with
  | nil =>
    cases other with
    | nil => exact ⟨rfl, same⟩
    | cons c other =>
      rw [List.nil_append] at same
      rw [same] at backBreak
      exact absurd (backBreak c rfl ▸ List.mem_cons_self) otherNoSlash
  | cons c front ih =>
    cases other with
    | nil =>
      rw [List.nil_append] at same
      rw [← same] at restBreak
      exact absurd (restBreak c rfl ▸ List.mem_cons_self) noSlash
    | cons d other =>
      obtain ⟨rfl, tails⟩ := List.cons.inj same
      obtain ⟨rfl, ends⟩ := ih (fun member => noSlash (List.mem_cons_of_mem _ member))
        (fun member => otherNoSlash (List.mem_cons_of_mem _ member)) tails
      exact ⟨rfl, ends⟩

/-- One spelling goes on as another, at a slash or at its end, just where its elements are the first
of the other. -/
theorem spell_prefix_iff (aboveNoSlash : ∀ element ∈ above, '/' ∉ element)
    (belowNoSlash : ∀ element ∈ below, '/' ∉ element) :
    (∃ rest, spell above ++ rest = spell below ∧ IsBreak rest) ↔ above <+: below := by
  constructor
  · rintro ⟨rest, same, isBreak⟩
    induction above generalizing below with
    | nil => exact List.nil_prefix
    | cons element above ih =>
      cases below with
      | nil => cases same
      | cons other below =>
        rw [spell_cons, spell_cons, List.cons_append, List.append_assoc] at same
        obtain ⟨rfl, later⟩ := eq_of_append_isBreak (aboveNoSlash _ List.mem_cons_self)
          (belowNoSlash _ List.mem_cons_self) ((isBreak_spell above).append isBreak)
          (isBreak_spell below) (List.cons.inj same).2
        exact List.cons_prefix_cons.mpr ⟨rfl, ih
          (fun element member => aboveNoSlash element (List.mem_cons_of_mem _ member))
          (fun element member => belowNoSlash element (List.mem_cons_of_mem _ member)) later⟩
  · rintro ⟨more, rfl⟩
    exact ⟨spell more, (spell_append above more).symm, isBreak_spell more⟩

end Path

end TreeExport

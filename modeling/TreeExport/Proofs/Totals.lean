import Mathlib.Data.List.Basic
import TreeExport.Total

/-!
# Totals over the members of a list

What becomes of a total when one member of a list is exchanged, and what a total says of the
members.
-/

namespace TreeExport

variable {α : Type} {f : α → Nat} {items : List α}

/-- Exchanging one member exchanges its share. -/
theorem total_map_set {index : Nat} {old : α} (new : α) (here : items[index]? = some old) :
    total ((items.set index new).map f) + f old = total (items.map f) + f new := by
  induction items generalizing index with
  | nil => cases here
  | cons first rest ih =>
    cases index with
    | zero =>
      cases here
      simp only [List.set_cons_zero, List.map_cons, total_cons]
      omega
    | succ index =>
      have later := @ih index here
      simp only [List.set_cons_succ, List.map_cons, total_cons]
      omega

theorem le_total_of_mem {item : α} (member : item ∈ items) : f item ≤ total (items.map f) := by
  induction items with
  | nil => cases member
  | cons first rest ih =>
    rw [List.map_cons, total_cons]
    rcases List.mem_cons.mp member with rfl | later
    · omega
    · have := ih later
      omega

theorem exists_of_total_ne_zero (positive : total (items.map f) ≠ 0) :
    ∃ item ∈ items, f item ≠ 0 := by
  induction items with
  | nil => exact absurd rfl positive
  | cons first rest ih =>
    rw [List.map_cons, total_cons] at positive
    by_cases here : f first = 0
    · obtain ⟨item, member, nonzero⟩ := ih (by omega)
      exact ⟨item, List.mem_cons_of_mem _ member, nonzero⟩
    · exact ⟨first, List.mem_cons_self, here⟩

theorem total_map_const (n : Nat) (items : List α) :
    total (items.map fun _ => n) = n * items.length := by
  induction items with
  | nil => rfl
  | cons item items ih =>
    rw [List.map_cons, total_cons, ih, List.length_cons, Nat.mul_succ, Nat.add_comm]

theorem total_map_add {g : α → Nat} (items : List α) :
    total (items.map fun item => f item + g item) = total (items.map f) + total (items.map g) := by
  induction items with
  | nil => rfl
  | cons item items ih =>
    simp only [List.map_cons, total_cons, ih]
    omega

theorem length_flatMap {β : Type} (items : List α) (f : α → List β) :
    (items.flatMap f).length = total (items.map fun item => (f item).length) := by
  induction items with
  | nil => rfl
  | cons item items ih => rw [List.flatMap_cons, List.length_append, ih, List.map_cons, total_cons]

theorem total_eq_zero (zero : ∀ item ∈ items, f item = 0) : total (items.map f) = 0 := by
  by_contra positive
  obtain ⟨item, member, nonzero⟩ := exists_of_total_ne_zero positive
  exact nonzero (zero item member)

/-- One number counts once among the first so many. -/
theorem total_range_single {number bound : Nat} (below : number < bound) :
    total ((List.range bound).map fun other => if number = other then 1 else 0) = 1 := by
  induction bound with
  | zero => exact absurd below (Nat.not_lt_zero _)
  | succ bound ih =>
    rw [List.range_succ, List.map_append, total_append, List.map_singleton, total_cons, total_nil]
    by_cases last : number = bound
    · rw [if_pos last, total_eq_zero]
      intro other member
      exact if_neg fun same => by
        have := List.mem_range.mp member
        omega
    · rw [if_neg last, ih (by omega)]

theorem total_le_length_mul {most : Nat} (bound : ∀ item ∈ items, f item ≤ most) :
    total (items.map f) ≤ items.length * most := by
  induction items with
  | nil => exact Nat.zero_le _
  | cons first rest ih =>
    have here := bound first List.mem_cons_self
    have later := ih fun item member => bound item (List.mem_cons_of_mem _ member)
    rw [List.map_cons, total_cons, List.length_cons, Nat.succ_mul]
    omega

/-- If nobody has more than one and somebody has none, there are fewer than members. -/
theorem total_lt_length (bound : ∀ item ∈ items, f item ≤ 1) {idle : α} (member : idle ∈ items)
    (none : f idle = 0) : total (items.map f) < items.length := by
  induction items with
  | nil => cases member
  | cons first rest ih =>
    have here := bound first List.mem_cons_self
    have others : ∀ item ∈ rest, f item ≤ 1 := fun item member =>
      bound item (List.mem_cons_of_mem _ member)
    rw [List.map_cons, total_cons, List.length_cons]
    rcases List.mem_cons.mp member with rfl | later
    · have few := total_le_length_mul others
      rw [Nat.mul_one] at few
      omega
    · have := ih others later
      omega

theorem total_perm {front back : List Nat} (perm : front.Perm back) : total front = total back := by
  induction perm with
  | nil => rfl
  | cons n _ ih => rw [total_cons, total_cons, ih]
  | swap first second rest =>
    simp only [total_cons]
    omega
  | trans _ _ first second => exact first.trans second

/-! ## Members of a list of which one is exchanged -/

/-- A change that does not touch what is looked at cannot be seen. -/
theorem map_modify {β : Type} {f : α → β} {change : α → α}
    (same : ∀ item, f (change item) = f item) (index : Nat) :
    (items.modify index change).map f = items.map f := by
  induction items generalizing index with
  | nil => rw [List.modify_nil]
  | cons first rest ih =>
    cases index with
    | zero => rw [List.modify_zero_cons, List.map_cons, List.map_cons, same]
    | succ index => rw [List.modify_succ_cons, List.map_cons, List.map_cons, ih]

theorem map_set {β : Type} {f : α → β} {index : Nat} {old new : α}
    (here : items[index]? = some old) (same : f new = f old) :
    (items.set index new).map f = items.map f := by
  induction items generalizing index with
  | nil => rfl
  | cons first rest ih =>
    cases index with
    | zero =>
      cases here
      rw [List.set_cons_zero, List.map_cons, List.map_cons, same]
    | succ index => rw [List.set_cons_succ, List.map_cons, List.map_cons, ih here]

theorem getElem?_set_cases {index other : Nat} {new found : α}
    (there : (items.set index new)[other]? = some found) :
    other = index ∧ found = new ∨ other ≠ index ∧ items[other]? = some found := by
  rw [List.getElem?_set] at there
  by_cases same : index = other
  · rw [if_pos same] at there
    split at there
    · cases there
      exact .inl ⟨same.symm, rfl⟩
    · cases there
  · rw [if_neg same] at there
    exact .inr ⟨fun back => same back.symm, there⟩

theorem mem_set_of_getElem? {index : Nat} {old : α} (new : α) (here : items[index]? = some old) :
    new ∈ items.set index new := by
  obtain ⟨below, -⟩ := List.getElem?_eq_some_iff.mp here
  exact List.mem_of_getElem? (List.getElem?_set_self below)

theorem mem_set_of_ne {index : Nat} {old item : α} (new : α) (here : items[index]? = some old)
    (member : item ∈ items) (other : item ≠ old) : item ∈ items.set index new := by
  obtain ⟨place, there⟩ := List.mem_iff_getElem?.mp member
  refine List.mem_of_getElem? (i := place) ?_
  rw [List.getElem?_set_ne, there]
  rintro rfl
  exact other (Option.some.inj (there.symm.trans here))

/-- What the new member has and the old ones had, all members have. -/
theorem forall_mem_set {kept : α → Prop} {index : Nat} {new : α} (holds : kept new)
    (all : ∀ item ∈ items, kept item) : ∀ item ∈ items.set index new, kept item := by
  intro item member
  rcases List.mem_or_eq_of_mem_set member with old | rfl
  · exact all item old
  · exact holds

theorem forall_mem_modify {kept : α → Prop} {change : α → α} (index : Nat)
    (keeps : ∀ item, kept item → kept (change item)) (all : ∀ item ∈ items, kept item) :
    ∀ item ∈ items.modify index change, kept item := by
  induction items generalizing index with
  | nil =>
    rw [List.modify_nil]
    exact all
  | cons first rest ih =>
    have here := all first List.mem_cons_self
    have later : ∀ item ∈ rest, kept item := fun item member =>
      all item (List.mem_cons_of_mem _ member)
    cases index with
    | zero =>
      rw [List.modify_zero_cons]
      exact List.forall_mem_cons.mpr ⟨keeps first here, later⟩
    | succ index =>
      rw [List.modify_succ_cons]
      exact List.forall_mem_cons.mpr ⟨here, ih index later⟩

end TreeExport

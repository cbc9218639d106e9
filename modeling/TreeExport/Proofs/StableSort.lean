import Mathlib.Data.List.Nodup

/-!
# Stable sorting by a text

A list is sorted by a text that each item has, such as its path.  Among the lists with the same
items for every text, in the same order, just one is sorted, and that is what a stable sort yields:

* `eq_stableSort`: a sorted list that keeps the items of every text in order is the stable sort;
* `stableSort_eq_of_perm`: where no text occurs twice, the order before sorting does not matter.

So a way of sorting is shown to be stable without a look at how it compares: it is enough to follow
the items of one text through it.
-/

namespace TreeExport

variable {α β : Type}

/-- The texts do not go down. -/
def SortedBy (key : α → String) (items : List α) : Prop :=
  items.Pairwise fun a b => key a ≤ key b

instance (key : α → String) (items : List α) : Decidable (SortedBy key items) :=
  inferInstanceAs (Decidable (items.Pairwise fun a b => key a ≤ key b))

/-- The items of one text, in order. -/
def itemsAt (key : α → String) (text : String) (items : List α) : List α :=
  items.filter fun item => key item == text

/-- The items by their texts; those of equal text stay in order. -/
def stableSort (key : α → String) (items : List α) : List α :=
  items.mergeSort fun a b => decide (key a ≤ key b)

variable {key : α → String}

/-! ## The items of one text -/

@[simp] theorem itemsAt_nil (text : String) : itemsAt key text [] = [] := rfl

@[simp] theorem itemsAt_append (text : String) (front back : List α) :
    itemsAt key text (front ++ back) = itemsAt key text front ++ itemsAt key text back :=
  List.filter_append ..

theorem itemsAt_cons_self (item : α) (items : List α) :
    itemsAt key (key item) (item :: items) = item :: itemsAt key (key item) items := by
  simp [itemsAt]

theorem itemsAt_cons_of_ne {item : α} {text : String} (other : key item ≠ text)
    (items : List α) : itemsAt key text (item :: items) = itemsAt key text items := by
  simp [itemsAt, other]

/-- A list all of whose texts lie above one has no items of that one. -/
theorem itemsAt_eq_nil_of_lt {text : String} {items : List α}
    (above : ∀ item ∈ items, text < key item) : itemsAt key text items = [] := by
  refine List.filter_eq_nil_iff.mpr ?_
  intro item member same
  have below := above item member
  rw [beq_iff_eq.mp same] at below
  exact String.lt_irrefl _ below

theorem itemsAt_flatten (text : String) (lists : List (List α)) :
    itemsAt key text lists.flatten = (lists.map (itemsAt key text)).flatten :=
  List.filter_flatten ..

/-- Items that occur in the same order for every text occur equally often. -/
theorem perm_of_itemsAt {items others : List α}
    (same : ∀ text, itemsAt key text items = itemsAt key text others) : items.Perm others := by
  classical
  refine List.perm_iff_count.mpr fun item => ?_
  have counted : ∀ list : List α, list.count item = (itemsAt key (key item) list).count item :=
    fun list => (List.count_filter (by simp)).symm
  rw [counted items, counted others, same]

/-! ## Sorted lists -/

theorem SortedBy.tail {item : α} {items : List α} (sorted : SortedBy key (item :: items)) :
    SortedBy key items :=
  (List.pairwise_cons.mp sorted).2

theorem SortedBy.head_le {item other : α} {items : List α}
    (sorted : SortedBy key (item :: items)) (member : other ∈ items) : key item ≤ key other :=
  (List.pairwise_cons.mp sorted).1 other member

/-- The first item of a sorted list has the least text. -/
theorem SortedBy.le_of_mem_cons {item other : α} {items : List α}
    (sorted : SortedBy key (item :: items)) (member : other ∈ item :: items) :
    key item ≤ key other := by
  rcases List.mem_cons.mp member with rfl | later
  · exact Std.le_refl _
  · exact sorted.head_le later

/-- In a list that is not sorted, some item lies below the one before it. -/
theorem exists_below_of_not_sortedBy {items : List α} (unsorted : ¬ SortedBy key items) :
    ∃ front last next rest, items = front ++ last :: next :: rest ∧ key next < key last ∧
      SortedBy key (front ++ [last]) := by
  induction items with
  | nil => exact absurd .nil unsorted
  | cons item items ih =>
    cases items with
    | nil => exact absurd (List.pairwise_singleton ..) unsorted
    | cons other items =>
      by_cases below : key other < key item
      · exact ⟨[], item, other, items, rfl, below, List.pairwise_singleton ..⟩
      · have ordered : key item ≤ key other := String.not_lt.mp below
        have rest : ¬ SortedBy key (other :: items) := by
          intro sorted
          refine unsorted (List.pairwise_cons.mpr ⟨fun later member => ?_, sorted⟩)
          exact String.le_trans ordered (sorted.le_of_mem_cons member)
        obtain ⟨front, last, next, rest, same, less, sorted⟩ := ih rest
        refine ⟨item :: front, last, next, rest, by rw [same]; rfl, less, ?_⟩
        refine List.pairwise_cons.mpr ⟨fun later member => ?_, sorted⟩
        -- what is in front of the descent is sorted, and begins with `other`
        cases front with
        | nil =>
          cases same
          exact List.mem_singleton.mp member ▸ ordered
        | cons head front =>
          cases same
          exact String.le_trans ordered (sorted.le_of_mem_cons member)

/-- Sorted lists with the same items for every text are the same. -/
theorem SortedBy.eq_of_itemsAt {items others : List α} (sorted : SortedBy key items)
    (sorted' : SortedBy key others)
    (same : ∀ text, itemsAt key text items = itemsAt key text others) : items = others := by
  induction items generalizing others with
  | nil =>
    have perm := perm_of_itemsAt same
    exact (List.nil_perm.mp perm).symm
  | cons item rest ih =>
    cases others with
    | nil => exact absurd (perm_of_itemsAt same) (by simp)
    | cons other rest' =>
      have perm := perm_of_itemsAt same
      have up : key item ≤ key other :=
        sorted.le_of_mem_cons (perm.mem_iff.mpr List.mem_cons_self)
      have down : key other ≤ key item :=
        sorted'.le_of_mem_cons (perm.mem_iff.mp List.mem_cons_self)
      have equal : key item = key other := String.le_antisymm up down
      -- the first of the items with the least text is the first of both lists
      have first := same (key item)
      rw [itemsAt_cons_self, equal, itemsAt_cons_self] at first
      obtain rfl : item = other := (List.cons.inj first).1
      have later : ∀ text, itemsAt key text rest = itemsAt key text rest' := by
        intro text
        have here := same text
        by_cases at_text : key item = text
        · subst at_text
          rw [itemsAt_cons_self, itemsAt_cons_self] at here
          exact (List.cons.inj here).2
        · rwa [itemsAt_cons_of_ne at_text, itemsAt_cons_of_ne at_text] at here
      rw [ih sorted.tail sorted'.tail later]

/-! ## The stable sort -/

theorem stableSort_perm (items : List α) : (stableSort key items).Perm items :=
  List.mergeSort_perm ..

@[simp] theorem mem_stableSort {item : α} {items : List α} :
    item ∈ stableSort key items ↔ item ∈ items :=
  (stableSort_perm items).mem_iff

@[simp] theorem length_stableSort (items : List α) :
    (stableSort key items).length = items.length :=
  (stableSort_perm items).length_eq

private theorem le_trans_key (a b c : α) (first : decide (key a ≤ key b) = true)
    (second : decide (key b ≤ key c) = true) : decide (key a ≤ key c) = true :=
  decide_eq_true (String.le_trans (of_decide_eq_true first) (of_decide_eq_true second))

private theorem le_total_key (a b : α) :
    (decide (key a ≤ key b) || decide (key b ≤ key a)) = true := by
  simpa using String.le_total (key a) (key b)

theorem sortedBy_stableSort (items : List α) : SortedBy key (stableSort key items) :=
  (List.pairwise_mergeSort le_trans_key le_total_key items).imp of_decide_eq_true

/-- Items of equal text stay in order. -/
@[simp] theorem itemsAt_stableSort (text : String) (items : List α) :
    itemsAt key text (stableSort key items) = itemsAt key text items := by
  have level : (itemsAt key text items).Pairwise fun a b => decide (key a ≤ key b) = true := by
    refine List.pairwise_of_forall_mem_list ?_
    intro a aHere b bHere
    have aText := beq_iff_eq.mp (List.mem_filter.mp aHere).2
    have bText := beq_iff_eq.mp (List.mem_filter.mp bHere).2
    rw [aText, bText]
    exact decide_eq_true (Std.le_refl text)
  have kept : (itemsAt key text items).Sublist (stableSort key items) :=
    List.sublist_mergeSort le_trans_key le_total_key level List.filter_sublist
  have within : (itemsAt key text items).Sublist (itemsAt key text (stableSort key items)) := by
    have filtered := kept.filter fun item => key item == text
    rwa [itemsAt, List.filter_filter, funext fun _ => Bool.and_self _] at filtered
  have lengths : (itemsAt key text (stableSort key items)).length =
      (itemsAt key text items).length :=
    ((stableSort_perm items).filter _).length_eq
  exact (within.eq_of_length lengths.symm).symm

/-- A sorted list that keeps the items of every text in order is the stable sort. -/
theorem eq_stableSort {items sorted : List α} (isSorted : SortedBy key sorted)
    (same : ∀ text, itemsAt key text sorted = itemsAt key text items) :
    sorted = stableSort key items :=
  isSorted.eq_of_itemsAt (sortedBy_stableSort items) fun text => by rw [same, itemsAt_stableSort]

/-- The stable sort depends on nothing but the items of every text, in order. -/
theorem stableSort_congr {items others : List α}
    (same : ∀ text, itemsAt key text items = itemsAt key text others) :
    stableSort key items = stableSort key others :=
  eq_stableSort (sortedBy_stableSort items) fun text => by rw [itemsAt_stableSort, same]

theorem stableSort_of_sortedBy {items : List α} (sorted : SortedBy key items) :
    stableSort key items = items :=
  (eq_stableSort sorted fun _ => rfl).symm

/-- A map that keeps the texts may be made before sorting or after. -/
theorem stableSort_map {key' : β → String} (f : α → β) (keeps : ∀ a, key' (f a) = key a)
    (items : List α) : (stableSort key items).map f = stableSort key' (items.map f) := by
  refine List.map_mergeSort ?_
  intro a _ b _
  rw [keeps, keeps]

/-- Sorting parts before the whole changes nothing. -/
theorem stableSort_flatten_map (lists : List (List α)) :
    stableSort key (lists.map (stableSort key)).flatten = stableSort key lists.flatten := by
  refine stableSort_congr fun text => ?_
  rw [itemsAt_flatten, itemsAt_flatten, List.map_map]
  congr 1
  refine List.map_congr_left fun list _ => ?_
  exact itemsAt_stableSort text list

/-- Where no text occurs twice, the order before sorting does not matter. -/
theorem stableSort_eq_of_perm {items others : List α} (perm : items.Perm others)
    (distinct : (items.map key).Nodup) : stableSort key items = stableSort key others := by
  refine List.Perm.eq_of_pairwise ?_ (sortedBy_stableSort items) (sortedBy_stableSort others)
    (((stableSort_perm items).trans perm).trans (stableSort_perm others).symm)
  intro a b aHere bHere up down
  have equal := String.le_antisymm up down
  have bMember := perm.mem_iff.mpr (mem_stableSort.mp bHere)
  exact List.inj_on_of_nodup_map distinct (mem_stableSort.mp aHere) bMember equal

end TreeExport

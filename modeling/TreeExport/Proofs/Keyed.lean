import Mathlib.Data.List.Induction
import Mathlib.Data.List.Nodup
import Mathlib.Data.List.Perm.Basic
import TreeExport.Keyed

/-!
# Keyed lists

A keyed list in key order holds one value for every key that it has, so it is determined by what is
found in it, and putting a value under a key exchanges one pair, or adds one.
-/

namespace TreeExport.Keyed

variable {α : Type} {key : String} {value : α} {pairs others : List (String × α)}

/-- The keys increase strictly. -/
def IsSorted (pairs : List (String × α)) : Prop :=
  pairs.Pairwise fun a b => a.1 < b.1

/-- The pairs under other keys. -/
def without (key : String) (pairs : List (String × α)) : List (String × α) :=
  pairs.filter fun pair => pair.1 != key

theorem without_cons_self (value : α) (pairs : List (String × α)) :
    without key ((key, value) :: pairs) = without key pairs :=
  List.filter_cons_of_neg (by simp)

theorem without_cons_of_ne {pair : String × α} (different : pair.1 ≠ key)
    (pairs : List (String × α)) : without key (pair :: pairs) = pair :: without key pairs :=
  List.filter_cons_of_pos (by simpa using different)

theorem without_eq_self (absent : ∀ pair ∈ pairs, pair.1 ≠ key) : without key pairs = pairs :=
  List.filter_eq_self.mpr fun pair member => by simpa using absent pair member

theorem ne_of_mem_without {pair : String × α} (member : pair ∈ without key pairs) :
    pair.1 ≠ key := by
  simpa using (List.mem_filter.mp member).2

theorem IsSorted.tail {pair : String × α} (sorted : IsSorted (pair :: pairs)) : IsSorted pairs :=
  (List.pairwise_cons.mp sorted).2

/-- No key of a sorted list is below the first one. -/
theorem IsSorted.ne_of_le {pair : String × α} (sorted : IsSorted (pair :: pairs))
    (below : key ≤ pair.1) : ∀ other ∈ pairs, other.1 ≠ key := by
  rintro other member rfl
  exact String.not_lt.mpr below ((List.pairwise_cons.mp sorted).1 other member)

theorem IsSorted.nodup_keys (sorted : IsSorted pairs) : (pairs.map Prod.fst).Nodup :=
  List.pairwise_map.mpr (sorted.imp fun below => String.ne_of_lt below)

theorem IsSorted.nodup (sorted : IsSorted pairs) : pairs.Nodup :=
  sorted.nodup_keys.of_map _

theorem ne_of_find?_eq_none (missing : find? key pairs = none) :
    ∀ pair ∈ pairs, pair.1 ≠ key := by
  induction pairs with
  | nil => exact fun _ member => absurd member List.not_mem_nil
  | cons pair pairs ih =>
    rw [find?] at missing
    split at missing
    · cases missing
    · next different =>
      exact List.forall_mem_cons.mpr ⟨fun same => different same.symm, ih missing⟩

theorem mem_of_find? (found : find? key pairs = some value) : (key, value) ∈ pairs := by
  induction pairs with
  | nil => cases found
  | cons pair pairs ih =>
    rw [find?] at found
    split at found
    · next same =>
      cases found
      rw [same]
      exact List.mem_cons_self
    · exact List.mem_cons_of_mem _ (ih found)

/-- A sorted list is the pair under a key, if there is one, and those under other keys. -/
theorem IsSorted.perm_of_find? (sorted : IsSorted pairs) (found : find? key pairs = some value) :
    pairs.Perm ((key, value) :: without key pairs) := by
  induction pairs with
  | nil => cases found
  | cons pair pairs ih =>
    rw [find?] at found
    split at found
    · next same =>
      cases found
      obtain ⟨other, value⟩ := pair
      cases same
      rw [without_cons_self, without_eq_self (sorted.ne_of_le (String.le_refl _))]
    · next different =>
      rw [without_cons_of_ne fun same => different same.symm]
      exact ((ih sorted.tail found).cons pair).trans (.swap ..)

theorem IsSorted.find?_of_mem (sorted : IsSorted pairs) (member : (key, value) ∈ pairs) :
    find? key pairs = some value := by
  induction pairs with
  | nil => cases member
  | cons pair pairs ih =>
    rw [find?]
    rcases List.mem_cons.mp member with rfl | later
    · exact if_pos rfl
    · have below := (List.pairwise_cons.mp sorted).1 _ later
      rw [if_neg fun same => String.ne_of_lt below same.symm]
      exact ih sorted.tail later

/-- Putting a value under a key leaves the pairs under other keys. -/
theorem IsSorted.insert_perm (sorted : IsSorted pairs) :
    (insert key value pairs).Perm ((key, value) :: without key pairs) := by
  induction pairs with
  | nil => exact .refl _
  | cons pair pairs ih =>
    obtain ⟨other, old⟩ := pair
    rw [insert]
    by_cases below : key < other
    · rw [if_pos below, without_cons_of_ne fun same => String.ne_of_lt below same.symm,
        without_eq_self (sorted.ne_of_le (String.not_lt.mp (String.lt_asymm below)))]
    · rw [if_neg below]
      by_cases same : key = other
      · rw [if_pos same]
        cases same
        rw [without_cons_self, without_eq_self (sorted.ne_of_le (String.le_refl _))]
      · rw [if_neg same, without_cons_of_ne fun same' => same same'.symm]
        exact ((ih sorted.tail).cons _).trans (.swap ..)

theorem IsSorted.insert (sorted : IsSorted pairs) : IsSorted (Keyed.insert key value pairs) := by
  induction pairs with
  | nil => exact List.pairwise_singleton ..
  | cons pair pairs ih =>
    obtain ⟨other, old⟩ := pair
    obtain ⟨above, rest⟩ := List.pairwise_cons.mp sorted
    rw [Keyed.insert]
    by_cases below : key < other
    · rw [if_pos below]
      refine List.pairwise_cons.mpr ⟨List.forall_mem_cons.mpr ⟨below, ?_⟩, sorted⟩
      exact fun pair member => String.lt_trans below (above pair member)
    · rw [if_neg below]
      by_cases same : key = other
      · rw [if_pos same]
        exact List.pairwise_cons.mpr ⟨same ▸ above, rest⟩
      · rw [if_neg same]
        refine List.pairwise_cons.mpr ⟨fun pair member => ?_, ih rest⟩
        rcases List.mem_cons.mp ((IsSorted.insert_perm rest).mem_iff.mp member) with rfl | later
        · refine String.not_le.mp fun above => same ?_
          exact String.le_antisymm above (String.not_lt.mp below)
        · exact above pair (List.mem_filter.mp later).1

/-- A key above all others is put behind them. -/
theorem insert_of_forall_lt (last : ∀ pair ∈ pairs, pair.1 < key) :
    insert key value pairs = pairs ++ [(key, value)] := by
  induction pairs with
  | nil => rfl
  | cons pair pairs ih =>
    rcases pair with ⟨other, old⟩
    rcases List.forall_mem_cons.mp last with ⟨below, rest⟩
    rw [insert, if_neg (String.lt_asymm below), if_neg (String.ne_of_lt below).symm, ih rest]
    rfl

theorem ofList_concat (pairs : List (String × α)) (pair : String × α) :
    ofList (pairs ++ [pair]) = insert pair.1 pair.2 (ofList pairs) :=
  List.foldl_concat ..

theorem isSorted_ofList (pairs : List (String × α)) : IsSorted (ofList pairs) := by
  induction pairs using List.reverseRecOn with
  | nil => exact .nil
  | append_singleton pairs pair ih =>
    rw [ofList_concat]
    exact ih.insert

/-- Nothing is in the list that has not been put there. -/
theorem mem_of_mem_ofList {pair : String × α} (member : pair ∈ ofList pairs) : pair ∈ pairs := by
  induction pairs using List.reverseRecOn with
  | nil => exact member
  | append_singleton pairs last ih =>
    rw [ofList_concat, (isSorted_ofList pairs).insert_perm.mem_iff] at member
    rcases List.mem_cons.mp member with rfl | other
    · exact List.mem_concat_self
    · exact List.mem_append_left _ (ih (List.mem_filter.mp other).1)

theorem mem_keys_insert (sorted : IsSorted pairs) {other : String} :
    other ∈ (insert key value pairs).map Prod.fst ↔ other = key ∨ other ∈ pairs.map Prod.fst := by
  rw [(sorted.insert_perm.map Prod.fst).mem_iff, List.map_cons, List.mem_cons]
  by_cases same : other = key
  · exact iff_of_true (.inl same) (.inl same)
  · -- the pairs under other keys stay
    have kept : other ∈ (without key pairs).map Prod.fst ↔ other ∈ pairs.map Prod.fst := by
      simp only [without, List.mem_map, List.mem_filter, bne_iff_ne]
      constructor
      · rintro ⟨pair, ⟨member, -⟩, rfl⟩
        exact ⟨pair, member, rfl⟩
      · rintro ⟨pair, member, rfl⟩
        exact ⟨pair, ⟨member, same⟩, rfl⟩
    rw [kept]

/-- Every key that a value has been put under is there. -/
theorem mem_keys_ofList : key ∈ (ofList pairs).map Prod.fst ↔ key ∈ pairs.map Prod.fst := by
  induction pairs using List.reverseRecOn with
  | nil => exact Iff.rfl
  | append_singleton pairs pair ih =>
    rw [ofList_concat, mem_keys_insert (isSorted_ofList pairs), ih, List.map_append, List.mem_append,
      List.map_singleton, List.mem_singleton, or_comm]

/-- A list in key order is made of its own pairs. -/
theorem IsSorted.ofList_eq (sorted : IsSorted pairs) : ofList pairs = pairs := by
  induction pairs using List.reverseRecOn with
  | nil => rfl
  | append_singleton pairs pair ih =>
    rcases List.pairwise_append.mp sorted with ⟨front, -, below⟩
    rw [ofList_concat, ih front]
    exact insert_of_forall_lt fun other member => below other member pair List.mem_cons_self

/-- Sorted lists with the same pairs are equal. -/
theorem IsSorted.eq_of_perm (sorted : IsSorted pairs) (sortedOthers : IsSorted others)
    (perm : pairs.Perm others) : pairs = others :=
  perm.eq_of_pairwise (fun _ _ _ _ below above => absurd above (String.lt_asymm below))
    sorted sortedOthers

/-- A sorted list is determined by what is found in it. -/
theorem IsSorted.ext (sorted : IsSorted pairs) (sortedOthers : IsSorted others)
    (same : ∀ key, find? key pairs = find? key others) : pairs = others := by
  refine sorted.eq_of_perm sortedOthers
    ((List.perm_ext_iff_of_nodup sorted.nodup sortedOthers.nodup).mpr ?_)
  rintro ⟨key, value⟩
  constructor
  · exact fun member => mem_of_find? ((same key).symm.trans (sorted.find?_of_mem member))
  · exact fun member => mem_of_find? ((same key).trans (sortedOthers.find?_of_mem member))

end TreeExport.Keyed

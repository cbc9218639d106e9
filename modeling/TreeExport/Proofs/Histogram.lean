import Mathlib.Algebra.BigOperators.Group.List.Basic
import Mathlib.Algebra.Order.Group.Multiset
import Mathlib.Data.Finset.Basic
import Mathlib.Data.Finset.Card
import TreeExport.Histogram
import TreeExport.Proofs.Keyed
import TreeExport.Proofs.Totals

/-!
# Bounded histograms

`Histogram.Grows` builds histograms from empty ones by counting keys and by taking up other
histograms, the entries of these in any order, and remembers every key that was counted, as often as
it was.  A histogram that has not overflowed holds just these keys, and one that has overflowed was
given more than it keeps (`Histogram.Grows.keeps`).  Which keys it kept then depends on the order,
but that it overflowed does not.
-/

namespace TreeExport

namespace Histogram

/-- The keys of some entries, each as often as its count says. -/
def contents (entries : List (String × Nat)) : Multiset String :=
  (entries.map fun entry => Multiset.replicate entry.2 entry.1).sum

/-- A histogram that has been built by counting keys, and by taking up histograms that have been
built so, with all the keys that have been counted on the way. -/
inductive Grows (maxKeys : Nat) : Multiset String → Histogram → Prop
  | empty (name : String) : Grows maxKeys 0 { name := name, maxKeys := maxKeys }
  | add {added : Multiset String} {histogram : Histogram} (key : String)
      (grows : Grows maxKeys added histogram) : Grows maxKeys (added + {key}) (histogram.add key)
  | merge {added others : Multiset String} {histogram other : Histogram}
      {order : List (String × Nat)} (grows : Grows maxKeys added histogram)
      (otherGrows : Grows maxKeys others other) (perm : order.Perm other.counts) :
      Grows maxKeys (added + others) (histogram.absorb order other.overflowed)

/-- What a histogram keeps of the keys that have been counted. -/
structure Keeps (maxKeys : Nat) (added : Multiset String) (histogram : Histogram) : Prop where
  bound : histogram.maxKeys = maxKeys
  sorted : Keyed.IsSorted histogram.counts
  positive : ∀ entry ∈ histogram.counts, 0 < entry.2
  contained : contents histogram.counts ≤ added
  length : histogram.counts.length = min added.toFinset.card maxKeys
  flagged : histogram.overflowed = true ↔ maxKeys < added.toFinset.card
  exact : histogram.overflowed = false → contents histogram.counts = added

variable {maxKeys : Nat} {added others : Multiset String} {histogram other : Histogram}
  {entries order : List (String × Nat)} {key : String}

/-! ## The keys of entries -/

@[simp] theorem contents_nil : contents [] = 0 := rfl

@[simp] theorem contents_cons (entry : String × Nat) (entries : List (String × Nat)) :
    contents (entry :: entries) = Multiset.replicate entry.2 entry.1 + contents entries :=
  List.sum_cons

theorem contents_perm (perm : order.Perm entries) : contents order = contents entries :=
  (perm.map _).sum_eq

theorem card_contents (entries : List (String × Nat)) :
    (contents entries).card = total (entries.map Prod.snd) := by
  induction entries with
  | nil => rfl
  | cons entry entries ih =>
    rw [contents_cons, Multiset.card_add, Multiset.card_replicate, ih, List.map_cons, total_cons]

theorem mem_contents (positive : ∀ entry ∈ entries, 0 < entry.2) :
    key ∈ contents entries ↔ key ∈ entries.map Prod.fst := by
  induction entries with
  | nil => simp
  | cons entry entries ih =>
    obtain ⟨here, later⟩ := List.forall_mem_cons.mp positive
    rw [contents_cons, Multiset.mem_add, ih later, List.map_cons, List.mem_cons,
      Multiset.mem_replicate]
    exact or_congr_left (and_iff_right (Nat.ne_of_gt here))

theorem count_contents_of_ne (absent : ∀ entry ∈ entries, entry.1 ≠ key) :
    (contents entries).count key = 0 := by
  induction entries with
  | nil => rfl
  | cons entry entries ih =>
    obtain ⟨here, later⟩ := List.forall_mem_cons.mp absent
    rw [contents_cons, Multiset.count_add, Multiset.count_replicate, if_neg here, ih later]

/-- In sorted entries a key occurs as often as the entry under it says. -/
theorem count_contents (sorted : Keyed.IsSorted entries) (key : String) :
    (contents entries).count key = (Keyed.find? key entries).getD 0 := by
  cases found : Keyed.find? key entries with
  | none => exact count_contents_of_ne (Keyed.ne_of_find?_eq_none found)
  | some value =>
    rw [contents_perm (sorted.perm_of_find? found), contents_cons, Multiset.count_add,
      Multiset.count_replicate_self, count_contents_of_ne fun _ => Keyed.ne_of_mem_without]
    rfl

theorem get_eq_count (sorted : Keyed.IsSorted histogram.counts) (key : String) :
    histogram.get key = (contents histogram.counts).count key :=
  (count_contents sorted key).symm

/-- Different keys are as many as the entries. -/
theorem card_toFinset_contents (sorted : Keyed.IsSorted entries)
    (positive : ∀ entry ∈ entries, 0 < entry.2) :
    (contents entries).toFinset.card = entries.length := by
  have same : (contents entries).toFinset = (entries.map Prod.fst).toFinset := by
    ext key
    rw [Multiset.mem_toFinset, List.mem_toFinset, mem_contents positive]
  rw [same, List.toFinset_card_of_nodup sorted.nodup_keys, List.length_map]

theorem find?_eq_of_count (sorted : Keyed.IsSorted entries)
    (positive : ∀ entry ∈ entries, 0 < entry.2) (key : String) :
    Keyed.find? key entries =
      if (contents entries).count key = 0 then none else some ((contents entries).count key) := by
  rw [count_contents sorted]
  cases found : Keyed.find? key entries with
  | none => rfl
  | some value =>
    exact (if_neg (Nat.ne_of_gt (positive _ (Keyed.mem_of_find? found)))).symm

/-- Sorted entries are determined by the keys that they stand for. -/
theorem eq_of_contents_eq (sorted : Keyed.IsSorted entries) (sortedOrder : Keyed.IsSorted order)
    (positive : ∀ entry ∈ entries, 0 < entry.2) (positiveOrder : ∀ entry ∈ order, 0 < entry.2)
    (same : contents entries = contents order) : entries = order := by
  refine sorted.ext sortedOrder fun key => ?_
  rw [find?_eq_of_count sorted positive, find?_eq_of_count sortedOrder positiveOrder, same]

theorem contents_insert (sorted : Keyed.IsSorted entries) (key : String) (count : Nat) :
    contents (Keyed.insert key count entries) =
      Multiset.replicate count key + contents (Keyed.without key entries) := by
  rw [contents_perm sorted.insert_perm, contents_cons]

theorem positive_insert {count : Nat} (sorted : Keyed.IsSorted entries) (more : 0 < count)
    (positive : ∀ entry ∈ entries, 0 < entry.2) :
    ∀ entry ∈ Keyed.insert key count entries, 0 < entry.2 := by
  intro entry member
  rcases List.mem_cons.mp (sorted.insert_perm.mem_iff.mp member) with rfl | old
  · exact more
  · exact positive entry (List.mem_filter.mp old).1

/-! ## Counting a key -/

theorem keeps_empty (maxKeys : Nat) (name : String) :
    Keeps maxKeys 0 { name := name, maxKeys := maxKeys } where
  bound := rfl
  sorted := List.Pairwise.nil
  positive := fun _ none => absurd none List.not_mem_nil
  contained := Multiset.zero_le _
  length := (Nat.zero_min _).symm
  flagged := by simp
  exact := fun _ => rfl

namespace Keeps

/-- With room for a new key, no key has been dropped. -/
theorem exact_of_room (keeps : Keeps maxKeys added histogram)
    (room : histogram.counts.length < histogram.maxKeys) : histogram.overflowed = false := by
  rw [keeps.length, keeps.bound] at room
  refine Bool.eq_false_iff.mpr fun flagged => ?_
  have many := keeps.flagged.mp flagged
  omega

theorem get_le_count (keeps : Keeps maxKeys added histogram) (key : String) :
    histogram.get key ≤ added.count key := by
  rw [get_eq_count keeps.sorted]
  exact Multiset.count_le_of_le key keeps.contained

theorem get_eq_count_of_exact (keeps : Keeps maxKeys added histogram)
    (exact : histogram.overflowed = false) (key : String) :
    histogram.get key = added.count key := by
  rw [get_eq_count keeps.sorted, keeps.exact exact]

/-- A key that has not been kept has not been counted, unless keys have been dropped. -/
theorem not_mem_of_missing (keeps : Keeps maxKeys added histogram)
    (missing : Keyed.find? key histogram.counts = none) (exact : histogram.overflowed = false) :
    key ∉ added := by
  have none := keeps.get_eq_count_of_exact exact key
  rw [get, missing] at none
  exact Multiset.count_eq_zero.mp none.symm

theorem toFinset_add_replicate {count : Nat} (positive : 0 < count) (added : Multiset String)
    (key : String) :
    (added + Multiset.replicate count key).toFinset = insert key added.toFinset := by
  rw [Multiset.toFinset_add, Multiset.toFinset_replicate, if_neg (Nat.ne_of_gt positive),
    Finset.union_comm, Finset.singleton_union]

/-- A key that is kept already is counted on. -/
theorem count_known {count old : Nat} (keeps : Keeps maxKeys added histogram) (more : 0 < count)
    (found : Keyed.find? key histogram.counts = some old) :
    Keeps maxKeys (added + Multiset.replicate count key)
      { histogram with counts := Keyed.insert key (old + count) histogram.counts } := by
  have kept := keeps.sorted.perm_of_find? found
  have gathered : contents (Keyed.insert key (old + count) histogram.counts) =
      contents histogram.counts + Multiset.replicate count key := by
    rw [contents_insert keeps.sorted, contents_perm kept, contents_cons, Multiset.replicate_add,
      add_right_comm]
  have known : key ∈ added := by
    refine Multiset.mem_of_le keeps.contained ((mem_contents keeps.positive).mpr ?_)
    exact List.mem_map_of_mem (Keyed.mem_of_find? found)
  have distinct := toFinset_add_replicate more added key
  rw [Finset.insert_eq_of_mem (Multiset.mem_toFinset.mpr known)] at distinct
  exact {
    bound := keeps.bound
    sorted := keeps.sorted.insert
    positive := positive_insert keeps.sorted (Nat.add_pos_right _ more) keeps.positive
    contained := gathered ▸ Multiset.add_le_add_right keeps.contained
    length := by
      rw [distinct, ← keeps.length, keeps.sorted.insert_perm.length_eq, kept.length_eq,
        List.length_cons, List.length_cons]
    flagged := distinct ▸ keeps.flagged
    exact := fun exact => gathered.trans (congrArg (· + _) (keeps.exact exact)) }

/-- A new key is kept where there is room. -/
theorem count_new {count : Nat} (keeps : Keeps maxKeys added histogram) (more : 0 < count)
    (missing : Keyed.find? key histogram.counts = none)
    (room : histogram.counts.length < histogram.maxKeys) :
    Keeps maxKeys (added + Multiset.replicate count key)
      { histogram with counts := Keyed.insert key count histogram.counts } := by
  have exact := keeps.exact_of_room room
  have new := keeps.not_mem_of_missing missing exact
  have alone : Keyed.without key histogram.counts = histogram.counts :=
    Keyed.without_eq_self (Keyed.ne_of_find?_eq_none missing)
  have gathered : contents (Keyed.insert key count histogram.counts) =
      contents histogram.counts + Multiset.replicate count key := by
    rw [contents_insert keeps.sorted, alone, add_comm]
  have length := keeps.length
  have few : added.toFinset.card < maxKeys := by
    rw [keeps.bound] at room
    omega
  have grown : (added + Multiset.replicate count key).toFinset.card = added.toFinset.card + 1 := by
    rw [toFinset_add_replicate more, Finset.card_insert_of_notMem (mt Multiset.mem_toFinset.mp new)]
  exact {
    bound := keeps.bound
    sorted := keeps.sorted.insert
    positive := positive_insert keeps.sorted more keeps.positive
    contained := gathered ▸ Multiset.add_le_add_right keeps.contained
    length := by
      rw [keeps.sorted.insert_perm.length_eq, alone, List.length_cons, grown]
      omega
    flagged := by
      rw [exact, grown]
      exact iff_of_false Bool.false_ne_true (by omega)
    exact := fun _ => gathered.trans (congrArg (· + _) (keeps.exact exact)) }

/-- A new key is dropped where there is no room. -/
theorem count_dropped {count : Nat} (keeps : Keeps maxKeys added histogram) (more : 0 < count)
    (missing : Keyed.find? key histogram.counts = none)
    (full : ¬ histogram.counts.length < histogram.maxKeys) :
    Keeps maxKeys (added + Multiset.replicate count key) { histogram with overflowed := true } := by
  have length := keeps.length
  rw [keeps.bound] at full
  have many : maxKeys < (added + Multiset.replicate count key).toFinset.card := by
    rw [toFinset_add_replicate more]
    cases exact : histogram.overflowed with
    | true =>
      exact (keeps.flagged.mp exact).trans_le (Finset.card_le_card (Finset.subset_insert ..))
    | false =>
      have new := keeps.not_mem_of_missing missing exact
      rw [Finset.card_insert_of_notMem (mt Multiset.mem_toFinset.mp new)]
      omega
  exact {
    bound := keeps.bound
    sorted := keeps.sorted
    positive := keeps.positive
    contained := keeps.contained.trans (Multiset.le_add_right ..)
    length := by
      show histogram.counts.length = _
      omega
    flagged := iff_of_true rfl many
    exact := nofun }

/-- Counting a key some more times. -/
theorem addCount {count : Nat} (keeps : Keeps maxKeys added histogram) (more : 0 < count) :
    Keeps maxKeys (added + Multiset.replicate count key) (histogram.addCount key count) := by
  unfold Histogram.addCount
  split
  · next found => exact keeps.count_known more found
  · next missing =>
    split
    · next room => exact keeps.count_new more missing room
    · next full => exact keeps.count_dropped more missing full

theorem add (keeps : Keeps maxKeys added histogram) (key : String) :
    Keeps maxKeys (added + {key}) (histogram.add key) :=
  keeps.addCount Nat.one_pos

/-! ## Taking up a histogram -/

theorem foldl_addCount (keeps : Keeps maxKeys added histogram)
    (positive : ∀ entry ∈ order, 0 < entry.2) :
    Keeps maxKeys (added + contents order)
      (order.foldl (fun h entry => h.addCount entry.1 entry.2) histogram) := by
  induction order generalizing added histogram with
  | nil =>
    rw [contents_nil, add_zero]
    exact keeps
  | cons entry order ih =>
    obtain ⟨here, later⟩ := List.forall_mem_cons.mp positive
    rw [contents_cons, ← add_assoc]
    exact ih (keeps.addCount here) later

/-- Taking up a histogram, in whatever order. -/
theorem absorb (keeps : Keeps maxKeys added histogram) (otherKeeps : Keeps maxKeys others other)
    (perm : order.Perm other.counts) :
    Keeps maxKeys (added + others) (histogram.absorb order other.overflowed) := by
  have filled := keeps.foldl_addCount fun entry member =>
    otherKeeps.positive entry (perm.mem_iff.mp member)
  rw [contents_perm perm] at filled
  unfold Histogram.absorb
  cases exact : other.overflowed with
  | false =>
    rw [otherKeeps.exact exact] at filled
    simpa only [Bool.or_false] using filled
  | true =>
    have many := otherKeeps.flagged.mp exact
    -- What was dropped before is missing in the entries, but they take up all the room.
    have room : maxKeys ≤ (added + contents other.counts).toFinset.card := by
      have kept := card_toFinset_contents otherKeeps.sorted otherKeeps.positive
      rw [otherKeeps.length, Nat.min_eq_right (Nat.le_of_lt many)] at kept
      rw [Multiset.toFinset_add, ← kept]
      exact Finset.card_le_card Finset.subset_union_right
    have more : maxKeys < (added + others).toFinset.card := by
      rw [Multiset.toFinset_add]
      exact many.trans_le (Finset.card_le_card Finset.subset_union_right)
    exact {
      bound := filled.bound
      sorted := filled.sorted
      positive := filled.positive
      contained := filled.contained.trans (Multiset.add_le_add_left otherKeeps.contained)
      length := by
        have length := filled.length
        dsimp only
        omega
      flagged := iff_of_true (Bool.or_true _) more
      exact := fun exact => Bool.noConfusion ((Bool.or_true _).symm.trans exact) }

end Keeps

/-- Whatever histogram has been built, it keeps what the keys that went into it call for. -/
theorem Grows.keeps (grows : Grows maxKeys added histogram) : Keeps maxKeys added histogram := by
  induction grows with
  | empty name => exact keeps_empty maxKeys name
  | add key _ ih => exact ih.add key
  | merge _ _ perm ih otherIh => exact ih.absorb otherIh perm

/-! ## What is kept -/

/-- The counts add up to the number of keys that were counted, unless some were dropped. -/
theorem Keeps.total_counts (keeps : Keeps maxKeys added histogram) :
    total (histogram.counts.map Prod.snd) ≤ added.card ∧
      (total (histogram.counts.map Prod.snd) = added.card ↔ histogram.overflowed = false) := by
  rw [← card_contents]
  refine ⟨Multiset.card_le_card keeps.contained, fun same => ?_, fun exact => ?_⟩
  · have whole := Multiset.eq_of_le_of_card_le keeps.contained (Nat.le_of_eq same.symm)
    refine Bool.eq_false_iff.mpr fun flagged => ?_
    have many := keeps.flagged.mp flagged
    have kept := card_toFinset_contents keeps.sorted keeps.positive
    rw [whole, keeps.length] at kept
    omega
  · rw [keeps.exact exact]

/-- Histograms that have not overflowed agree if the same keys were counted. -/
theorem Keeps.counts_eq (keeps : Keeps maxKeys added histogram)
    (otherKeeps : Keeps maxKeys added other) (exact : histogram.overflowed = false) :
    other.counts = histogram.counts ∧ other.overflowed = false := by
  have otherExact : other.overflowed = false := by
    refine Bool.eq_false_iff.mpr fun flagged => ?_
    exact Bool.false_ne_true (exact.symm.trans (keeps.flagged.mpr (otherKeeps.flagged.mp flagged)))
  refine ⟨?_, otherExact⟩
  exact eq_of_contents_eq otherKeeps.sorted keeps.sorted otherKeeps.positive keeps.positive
    ((otherKeeps.exact otherExact).trans (keeps.exact exact).symm)

/-! ## Counting one key after the other -/

/-- A histogram into which keys have been counted, one after the other. -/
def fill (maxKeys : Nat) (name : String) (keys : List String) : Histogram :=
  keys.foldl Histogram.add { name := name, maxKeys := maxKeys }

theorem fill_concat (maxKeys : Nat) (name : String) (keys : List String) (key : String) :
    fill maxKeys name (keys ++ [key]) = (fill maxKeys name keys).add key :=
  List.foldl_append

theorem grows_fill (maxKeys : Nat) (name : String) (keys : List String) :
    Grows maxKeys keys (fill maxKeys name keys) := by
  induction keys using List.reverseRecOn with
  | nil => exact .empty name
  | append_singleton keys key ih =>
    rw [fill_concat]
    exact ih.add key

theorem get_add_of_ne {key other : String} (histogram : Histogram) (different : other ≠ key) :
    (histogram.add key).get other = histogram.get other := by
  unfold Histogram.add Histogram.addCount
  split
  · rw [get, Keyed.find?_insert_of_ne different, get]
  · split
    · rw [get, Keyed.find?_insert_of_ne different, get]
    · rfl

/-- A key that is counted next has been counted every time so far, or never. -/
theorem Keeps.get_add_self (keeps : Keeps maxKeys added histogram)
    (whole : histogram.get key = added.count key ∨ histogram.get key = 0) :
    (histogram.add key).get key = added.count key + 1 ∨ (histogram.add key).get key = 0 := by
  unfold Histogram.add Histogram.addCount
  split
  · next old found =>
    have positive : 0 < old := keeps.positive _ (Keyed.mem_of_find? found)
    rw [get, found] at whole
    rw [get, Keyed.find?_insert_self]
    exact .inl (congrArg (· + 1) (whole.resolve_right (Nat.ne_of_gt positive)))
  · next missing =>
    split
    · next room =>
      have new := keeps.not_mem_of_missing missing (keeps.exact_of_room room)
      rw [get, Keyed.find?_insert_self, Multiset.count_eq_zero.mpr new]
      exact .inl rfl
    · refine .inr ?_
      rw [get, missing]
      rfl

/-- Where keys are counted one after the other, every key is counted each time or never. -/
theorem get_fill (maxKeys : Nat) (name : String) (keys : List String) (key : String) :
    (fill maxKeys name keys).get key = keys.count key ∨ (fill maxKeys name keys).get key = 0 := by
  induction keys using List.reverseRecOn with
  | nil => exact .inr rfl
  | append_singleton keys last ih =>
    rw [fill_concat, List.count_append, List.count_singleton]
    by_cases same : key = last
    · subst same
      rw [← Multiset.coe_count] at ih ⊢
      rw [beq_self_eq_true, if_pos rfl]
      exact (grows_fill maxKeys name keys).keeps.get_add_self ih
    · rw [get_add_of_ne _ same, if_neg (by simpa using Ne.symm same), Nat.add_zero]
      exact ih

/-! ## The greatest counts -/

theorem before_iff {a b : String × Nat} :
    before a b = true ↔ b.2 < a.2 ∨ a.2 = b.2 ∧ a.1 ≤ b.1 := by
  simp [before]

theorem before_trans (a b c : String × Nat) (first : before a b = true)
    (later : before b c = true) : before a c = true := by
  rw [before_iff] at first later ⊢
  rcases first with first | ⟨same, first⟩
  · exact .inl (by omega)
  · rcases later with later | ⟨equal, later⟩
    · exact .inl (by omega)
    · exact .inr ⟨same.trans equal, String.le_trans first later⟩

theorem before_total (a b : String × Nat) : (before a b || before b a) = true := by
  rw [Bool.or_eq_true, before_iff, before_iff]
  rcases Nat.lt_trichotomy a.2 b.2 with below | same | above
  · exact .inr (.inl below)
  · exact (String.le_total a.1 b.1).imp (fun le => .inr ⟨same, le⟩) fun le => .inr ⟨same.symm, le⟩
  · exact .inl (.inl above)

theorem before_antisymm {a b : String × Nat} (first : before a b = true)
    (later : before b a = true) : a = b := by
  rw [before_iff] at first later
  have same : a.2 = b.2 := by omega
  have keys : a.1 = b.1 := by
    refine String.le_antisymm ?_ ?_
    · exact (first.resolve_left (by omega)).2
    · exact (later.resolve_left (by omega)).2
  exact Prod.ext keys same

/-- The entries with the greatest counts do not depend on the order in which they are visited. -/
theorem top_eq_of_perm (perm : order.Perm histogram.counts) (n : Nat) :
    (order.mergeSort before).take n = histogram.top n := by
  have sorted : order.mergeSort before = histogram.counts.mergeSort before := by
    refine List.Perm.eq_of_pairwise (fun a b _ _ => before_antisymm)
      (List.pairwise_mergeSort before_trans before_total _)
      (List.pairwise_mergeSort before_trans before_total _) ?_
    exact (List.mergeSort_perm ..).trans (perm.trans (List.mergeSort_perm ..).symm)
  rw [top, sorted]

/-- Whatever way a histogram has been built, it overflows just if more keys went into it than it may
keep, and it keeps as many as it may; no key is counted more often than it went in.  Unless it
overflowed every count is exact, and what it shows depends neither on how it has been built nor on
the order in which entries are visited.  Where keys are just counted one after the other, a key is
counted each time or never. -/
theorem Grows.exact_until_overflow (grows : Grows maxKeys added histogram) :
    (histogram.overflowed = true ↔ maxKeys < added.toFinset.card) ∧
      ((histogram.counts.map Prod.fst).Nodup ∧
        histogram.counts.length = min added.toFinset.card maxKeys) ∧
      (∀ key, histogram.get key ≤ added.count key) ∧
      (histogram.overflowed = false →
        (∀ key, histogram.get key = added.count key) ∧
        ∀ other, Grows maxKeys added other →
          other.counts = histogram.counts ∧
          (∀ (order : List (String × Nat)) (n : Nat), order.Perm other.counts →
            (order.mergeSort before).take n = histogram.top n) ∧
          (other.name = histogram.name → other.render = histogram.render)) ∧
      ∀ name keys, histogram = fill maxKeys name keys →
        ∀ key, histogram.get key = keys.count key ∨ histogram.get key = 0 := by
  have keeps := grows.keeps
  refine ⟨keeps.flagged, ⟨keeps.sorted.nodup_keys, keeps.length⟩, keeps.get_le_count,
    fun exact => ⟨keeps.get_eq_count_of_exact exact, fun other otherGrows => ?_⟩, ?_⟩
  · obtain ⟨same, otherExact⟩ := keeps.counts_eq otherGrows.keeps exact
    refine ⟨same, fun order n perm => top_eq_of_perm (perm.trans (.of_eq same)) n, fun name => ?_⟩
    rw [render, render, top, top, same, name, otherExact, exact]
  · rintro name keys rfl
    exact get_fill maxKeys name keys

/-- Three keys where there is room for two, and all of that taken up once more by itself. -/
theorem few_merged_overflow : ((fill 2 "few" ["/a", "/b", "/a", "/c"]).merge
      (fill 2 "few" ["/a", "/b", "/a", "/c"])).overflowed = true ∧
    ((fill 2 "few" ["/a", "/b", "/a", "/c"]).merge
      (fill 2 "few" ["/a", "/b", "/a", "/c"])).counts.length = 2 := by
  have few := grows_fill 2 "few" ["/a", "/b", "/a", "/c"]
  obtain ⟨flagged, ⟨-, length⟩, -⟩ := (few.merge few (.refl _)).exact_until_overflow
  exact ⟨flagged.mpr (by decide +kernel), length.trans (by decide +kernel)⟩

end Histogram

end TreeExport

import TreeExport.Proofs.StableSort
import TreeExport.Store.Merge

/-!
# A merge is a stable sort

`ofRuns_eq_stableSort`: the merge of sorted runs that can be read to their ends comes to its own end
and yields the stable sort by path of the runs one after the other.  Each step takes out an entry of
least path, of the first run that has one; no run before it has an entry of that path, so the entries
of every path come out in the order in which they went in.  `fault_ofRuns_eq_none_iff`: no other
runs are merged to an end.
-/

namespace TreeExport

namespace Cursor

/-- The entries that a cursor stands for. -/
def entries (cursor : Cursor) : List StoredEntry :=
  cursor.entry :: cursor.rest.entries

/-- The run of a cursor is sorted and can be read to its end. -/
structure IsSound (cursor : Cursor) : Prop where
  sorted : SortedBy StoredEntry.path cursor.entries
  readable : cursor.rest.fault = none

theorem eq_nil_of_least? {cursors : List Cursor} (empty : least? cursors = none) :
    cursors = [] := by
  cases cursors with
  | nil => rfl
  | cons first rest =>
    unfold least? at empty
    split at empty
    · split at empty <;> cases empty
    · cases empty

/-- Nothing before the cursor that is taken out has a path so small, and nothing after it a smaller
one. -/
theorem least?_isLeast {cursors before after : List Cursor} {least : Cursor}
    (found : least? cursors = some (before, least, after)) :
    (∀ cursor ∈ before, least.entry.path < cursor.entry.path) ∧
      ∀ cursor ∈ after, least.entry.path ≤ cursor.entry.path := by
  induction cursors generalizing before least after with
  | nil => simp [least?] at found
  | cons cursor rest ih =>
    unfold least? at found
    split at found
    · next before' least' after' deeper =>
      obtain ⟨ahead, behind⟩ := ih deeper
      split at found
      next less =>
        cases found
        refine ⟨fun other member => ?_, behind⟩
        rcases List.mem_cons.mp member with rfl | later
        · exact less
        · exact ahead other later
      next notLess =>
        cases found
        refine ⟨fun _ none => absurd none List.not_mem_nil, fun other member => ?_⟩
        have below : cursor.entry.path ≤ least'.entry.path := String.not_lt.mp notLess
        rw [eq_of_least? deeper] at member
        rcases List.mem_append.mp member with early | late
        · exact String.le_trans below (String.not_lt.mp (String.lt_asymm (ahead other early)))
        · rcases List.mem_cons.mp late with rfl | later
          · exact below
          · exact String.le_trans below (behind other later)
    · next empty =>
      cases found
      rw [eq_nil_of_least? empty]
      exact ⟨fun _ none => absurd none List.not_mem_nil, fun _ none => absurd none List.not_mem_nil⟩

theorem IsSound.path_le {cursor : Cursor} (sound : cursor.IsSound) {entry : StoredEntry}
    (member : entry ∈ cursor.entries) : cursor.entry.path ≤ entry.path :=
  sound.sorted.le_of_mem_cons member

/-- A sound cursor goes on to the rest of its run. -/
theorem IsSound.next {cursor : Cursor} (sound : cursor.IsSound) :
    ∃ later : Option Cursor, cursor.next = .ok later ∧
      later.toList.flatMap Cursor.entries = cursor.rest.entries ∧
      ∀ moved ∈ later.toList, moved.IsSound := by
  obtain ⟨entry, path, following, fault⟩ := cursor
  obtain ⟨sorted, readable⟩ := sound
  simp only at readable
  subst readable
  cases following with
  | nil => exact ⟨none, rfl, rfl, fun _ member => absurd member List.not_mem_nil⟩
  | cons later rest =>
    have ordered : ¬ later.path < entry.path :=
      String.not_lt.mpr (sorted.head_le List.mem_cons_self)
    refine ⟨some ⟨later, path, rest, none⟩, ?_, by simp [entries], fun moved member => ?_⟩
    · simp only [Cursor.next, Run.open?, bind, Except.bind, ordered, if_false, pure, Except.pure]
    · obtain rfl := List.mem_singleton.mp member
      exact ⟨sorted.tail, rfl⟩

end Cursor

namespace Merging

/-- What is said of a merge from given cursors on: it comes to its end, sorted, and with the entries
of every path in their order. -/
structure Merges (cursors : List Cursor) (merging : Merging) : Prop where
  complete : merging.fault = none
  sorted : SortedBy StoredEntry.path merging.entries
  kept : ∀ path, itemsAt StoredEntry.path path merging.entries =
    itemsAt StoredEntry.path path (cursors.flatMap Cursor.entries)

/-- One entry is taken out of sound cursors, and the rest is merged. -/
theorem Merges.step {before after : List Cursor} {least : Cursor} {later : List Cursor}
    {more : Merging} (sound : ∀ cursor ∈ before ++ least :: after, cursor.IsSound)
    (ahead : ∀ cursor ∈ before, least.entry.path < cursor.entry.path)
    (behind : ∀ cursor ∈ after, least.entry.path ≤ cursor.entry.path)
    (rest : later.flatMap Cursor.entries = least.rest.entries)
    (merged : Merges (before ++ (later ++ after)) more) :
    Merges (before ++ least :: after) ⟨least.entry :: more.entries, more.fault⟩ := by
  have within := sound least (by simp)
  refine ⟨merged.complete, List.pairwise_cons.mpr ⟨fun entry member => ?_, merged.sorted⟩,
    fun path => ?_⟩
  · have inside := (perm_of_itemsAt merged.kept).mem_iff.mp member
    simp only [List.flatMap_append, rest, List.mem_append, List.mem_flatMap] at inside
    rcases inside with ⟨cursor, here, inCursor⟩ | inLeast | ⟨cursor, here, inCursor⟩
    · have lower := (sound cursor (by simp [here])).path_le inCursor
      exact String.le_trans (String.not_lt.mp (String.lt_asymm (ahead cursor here))) lower
    · exact within.sorted.head_le inLeast
    · have lower := (sound cursor (by simp [here])).path_le inCursor
      exact String.le_trans (behind cursor here) lower
  · have kept := merged.kept path
    simp only [List.flatMap_append, List.flatMap_cons, rest, itemsAt_append, Cursor.entries]
      at kept ⊢
    by_cases same : least.entry.path = path
    · -- the runs before the least have no entry of its path, so it comes first
      subst same
      have none : itemsAt StoredEntry.path least.entry.path (before.flatMap Cursor.entries) = [] := by
        refine itemsAt_eq_nil_of_lt fun entry member => ?_
        obtain ⟨cursor, here, inCursor⟩ := List.mem_flatMap.mp member
        have lower := (sound cursor (by simp [here])).path_le inCursor
        exact Std.lt_of_lt_of_le (ahead cursor here) lower
      rw [none, List.nil_append] at kept ⊢
      rw [itemsAt_cons_self, itemsAt_cons_self, kept, List.cons_append]
    · rw [itemsAt_cons_of_ne same, itemsAt_cons_of_ne same, kept]

theorem ofCursors_merges (cursors : List Cursor) (sound : ∀ cursor ∈ cursors, cursor.IsSound) :
    Merges cursors (ofCursors cursors) := by
  induction cursors using ofCursors.induct with
  | case1 cursors none =>
    obtain rfl := Cursor.eq_nil_of_least? none
    rw [ofCursors]
    exact ⟨rfl, .nil, fun _ => rfl⟩
  | case2 cursors before least after chosen fault failed =>
    have here : least ∈ cursors := by rw [Cursor.eq_of_least? chosen]; simp
    obtain ⟨later, moved, -⟩ := (sound least here).next
    rw [failed] at moved
    cases moved
  | case3 cursors before least after chosen later moved ih =>
    have whole := Cursor.eq_of_least? chosen
    obtain ⟨ahead, behind⟩ := Cursor.least?_isLeast chosen
    have here : least ∈ cursors := by rw [whole]; simp
    obtain ⟨later', moved', rest, soundLater⟩ := (sound least here).next
    rw [moved] at moved'
    cases moved'
    have soundMore : ∀ cursor ∈ before ++ (later.toList ++ after), cursor.IsSound := by
      intro cursor member
      simp only [List.mem_append] at member
      rcases member with early | inLater | late
      · exact sound cursor (by rw [whole]; simp [early])
      · exact soundLater cursor inLater
      · exact sound cursor (by rw [whole]; simp [late])
    have unfolded : ofCursors cursors =
        ⟨least.entry :: (ofCursors (before ++ (later.toList ++ after))).entries,
          (ofCursors (before ++ (later.toList ++ after))).fault⟩ := by
      rw [ofCursors]
      split
      · next empty => rw [chosen] at empty; cases empty
      · next before' least' after' chosen' =>
        rw [chosen] at chosen'
        cases chosen'
        split
        · next fault failed => rw [moved] at failed; cases failed
        · next later' moved' =>
          rw [moved] at moved'
          cases moved'
          rfl
    rw [unfolded, whole]
    exact Merges.step (by rwa [← whole]) ahead behind rest (ih soundMore)

/-- Sorted runs that can be read to their ends are opened at their first entries. -/
theorem openAll_of_sorted {runs : List Run} (readable : ∀ run ∈ runs, run.fault = none)
    (sorted : ∀ run ∈ runs, SortedBy StoredEntry.path run.entries) :
    ∃ cursors, openAll runs = .ok cursors ∧
      cursors.flatMap Cursor.entries = runs.flatMap Run.entries ∧
      ∀ cursor ∈ cursors, cursor.IsSound := by
  induction runs with
  | nil => exact ⟨[], rfl, rfl, fun _ member => absurd member List.not_mem_nil⟩
  | cons run rest ih =>
    obtain ⟨cursors, opened, entries, sound⟩ :=
      ih (fun other member => readable other (List.mem_cons_of_mem _ member))
        (fun other member => sorted other (List.mem_cons_of_mem _ member))
    obtain ⟨path, following, fault⟩ := run
    have noFault := readable _ List.mem_cons_self
    have inOrder := sorted _ List.mem_cons_self
    simp only at noFault inOrder
    subst noFault
    cases following with
    | nil =>
      refine ⟨cursors, ?_, by simpa using entries, sound⟩
      simp only [openAll, Run.open?, bind, Except.bind, opened, Option.toList, List.nil_append,
        pure, Except.pure]
    | cons entry later =>
      refine ⟨⟨entry, path, later, none⟩ :: cursors, ?_, ?_, fun cursor member => ?_⟩
      · simp only [openAll, Run.open?, bind, Except.bind, opened, Option.toList,
          List.singleton_append, pure, Except.pure]
      · simp only [List.flatMap_cons, entries, Cursor.entries]
      · rcases List.mem_cons.mp member with rfl | member
        · exact ⟨inOrder, rfl⟩
        · exact sound cursor member

/-- The merge of sorted runs is the stable sort of their entries, one run after the other. -/
theorem ofRuns_eq_stableSort {runs : List Run} (readable : ∀ run ∈ runs, run.fault = none)
    (sorted : ∀ run ∈ runs, SortedBy StoredEntry.path run.entries) :
    ofRuns runs = ⟨stableSort StoredEntry.path (runs.flatMap Run.entries), none⟩ := by
  obtain ⟨cursors, opened, entries, sound⟩ := openAll_of_sorted readable sorted
  have merged := ofCursors_merges cursors sound
  rw [ofRuns, opened, ← entries, ← eq_stableSort merged.sorted merged.kept, ← merged.complete]

end Merging

/-! ## Merges that come to their ends -/

namespace Cursor

/-- A cursor that goes on to sound entries, or to the end of its run, is sound. -/
theorem isSound_of_next {cursor : Cursor} {later : Option Cursor}
    (moved : cursor.next = .ok later) (sound : ∀ next ∈ later.toList, next.IsSound) :
    cursor.IsSound := by
  obtain ⟨entry, path, following, fault⟩ := cursor
  cases following with
  | nil =>
    cases fault with
    | none => exact ⟨List.pairwise_singleton .., rfl⟩
    | some reason => cases moved
  | cons first rest =>
    simp only [next, Run.open?, bind, Except.bind] at moved
    split at moved
    · cases moved
    · next ordered =>
      cases moved
      obtain ⟨sorted, readable⟩ := sound _ (List.mem_singleton.mpr rfl)
      refine ⟨List.pairwise_cons.mpr ⟨fun other member => ?_, sorted⟩, readable⟩
      exact String.le_trans (String.not_lt.mp ordered) (sorted.le_of_mem_cons member)

end Cursor

namespace Merging

/-- A merge that comes to its end started from sound cursors. -/
theorem isSound_of_complete {cursors : List Cursor} (complete : (ofCursors cursors).fault = none) :
    ∀ cursor ∈ cursors, cursor.IsSound := by
  fun_induction ofCursors cursors with
  | case1 cursors none =>
    rw [Cursor.eq_nil_of_least? none]
    exact fun _ member => absurd member List.not_mem_nil
  | case2 => cases complete
  | case3 cursors before least after chosen later moved more ih =>
    have rest := ih complete
    rw [Cursor.eq_of_least? chosen]
    intro cursor member
    rcases List.mem_append.mp member with early | late
    · exact rest cursor (List.mem_append_left _ early)
    · rcases List.mem_cons.mp late with rfl | late
      · exact Cursor.isSound_of_next moved fun next inLater =>
          rest next (List.mem_append_right _ (List.mem_append_left _ inLater))
      · exact rest cursor (List.mem_append_right _ (List.mem_append_right _ late))

/-- Runs that open at sound cursors are sorted and can be read to their ends. -/
theorem sorted_of_openAll {runs : List Run} {cursors : List Cursor}
    (opened : openAll runs = .ok cursors) (sound : ∀ cursor ∈ cursors, cursor.IsSound) :
    ∀ run ∈ runs, run.fault = none ∧ SortedBy StoredEntry.path run.entries := by
  induction runs generalizing cursors with
  | nil => exact fun _ member => absurd member List.not_mem_nil
  | cons run rest ih =>
    obtain ⟨first, openedFirst, opened⟩ := StoredEntry.exists_of_bind opened
    obtain ⟨others, openedRest, opened⟩ := StoredEntry.exists_of_bind opened
    cases opened
    have later := ih openedRest fun cursor member => sound cursor (List.mem_append_right _ member)
    intro other member
    rcases List.mem_cons.mp member with rfl | inRest
    · obtain ⟨path, entries, fault⟩ := other
      cases entries with
      | nil =>
        cases fault with
        | none => exact ⟨rfl, .nil⟩
        | some reason => cases openedFirst
      | cons entry following =>
        cases openedFirst
        obtain ⟨sorted, readable⟩ := sound _ List.mem_cons_self
        exact ⟨readable, sorted⟩
    · exact later other inRest

/-- A merge comes to its end exactly if all runs are sorted and can be read to their ends. -/
theorem fault_ofRuns_eq_none_iff {runs : List Run} : (ofRuns runs).fault = none ↔
    ∀ run ∈ runs, run.fault = none ∧ SortedBy StoredEntry.path run.entries := by
  constructor
  · intro complete
    unfold ofRuns at complete
    split at complete
    · next cursors opened => exact sorted_of_openAll opened (isSound_of_complete complete)
    · cases complete
  · intro sound
    rw [ofRuns_eq_stableSort (fun run member => (sound run member).1)
      fun run member => (sound run member).2]

end Merging

/-! ## What a merge takes out -/

theorem Run.entries_of_open? {run : Run} {cursor : Option Cursor}
    (opened : run.open? = .ok cursor) : cursor.toList.flatMap Cursor.entries = run.entries := by
  obtain ⟨path, entries, fault⟩ := run
  cases entries with
  | nil =>
    cases fault with
    | none =>
      cases opened
      rfl
    | some reason => cases opened
  | cons entry rest =>
    cases opened
    exact List.flatMap_singleton ..

theorem Cursor.entries_of_next {cursor : Cursor} {later : Option Cursor}
    (moved : cursor.next = .ok later) :
    later.toList.flatMap Cursor.entries = cursor.rest.entries := by
  obtain ⟨opened, opens, ordered⟩ := StoredEntry.exists_of_bind moved
  have rest := Run.entries_of_open? opens
  cases opened with
  | none =>
    cases ordered
    exact rest
  | some next =>
    dsimp only at ordered
    split at ordered
    · cases ordered
    · cases ordered
      exact rest

namespace Merging

variable {entry : StoredEntry}

theorem mem_of_mem_ofCursors {cursors : List Cursor} (member : entry ∈ (ofCursors cursors).entries) :
    entry ∈ cursors.flatMap Cursor.entries := by
  fun_induction ofCursors cursors with
  | case1 => cases member
  | case2 cursors before least after chosen =>
    rw [Cursor.eq_of_least? chosen, List.mem_singleton.mp member]
    simp [Cursor.entries]
  | case3 cursors before least after chosen later moved more ih =>
    rw [Cursor.eq_of_least? chosen]
    simp only [List.flatMap_append, List.flatMap_cons, Cursor.entries_of_next moved,
      List.mem_append, Cursor.entries, List.mem_cons] at ih ⊢
    rcases List.mem_cons.mp member with first | rest
    · exact .inr (.inl (.inl first))
    · rcases ih rest with early | inLater | late
      · exact .inl early
      · exact .inr (.inl (.inr inLater))
      · exact .inr (.inr late)

theorem entries_of_openAll {runs : List Run} {cursors : List Cursor}
    (opened : openAll runs = .ok cursors) :
    cursors.flatMap Cursor.entries = runs.flatMap Run.entries := by
  induction runs generalizing cursors with
  | nil =>
    cases opened
    rfl
  | cons run rest ih =>
    obtain ⟨first, openedFirst, opened⟩ := StoredEntry.exists_of_bind opened
    obtain ⟨others, openedRest, opened⟩ := StoredEntry.exists_of_bind opened
    cases opened
    rw [List.flatMap_append, Run.entries_of_open? openedFirst, ih openedRest, List.flatMap_cons]

/-- Every entry that a merge writes, whether it comes to its end or not, is one of a run. -/
theorem mem_of_mem_ofRuns {runs : List Run} (member : entry ∈ (ofRuns runs).entries) :
    ∃ run ∈ runs, entry ∈ run.entries := by
  unfold ofRuns at member
  split at member
  · next cursors opened =>
    have inside := mem_of_mem_ofCursors member
    rw [entries_of_openAll opened] at inside
    exact List.mem_flatMap.mp inside
  · cases member

end Merging

end TreeExport

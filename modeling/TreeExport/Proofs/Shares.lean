import Mathlib.Data.List.Perm.Basic
import TreeExport.Proofs.Totals

/-!
# Shares

Things that are dealt out to several parties, each marked with the number of the party that it goes
to.  The share of a party is what it gets, in order; the shares determine what has been dealt out,
up to its order (`perm_of_shareOf`).
-/

namespace TreeExport

variable {α β : Type} {id other : Nat}

/-- What one party gets, in order. -/
def shareOf (id : Nat) (dealt : List (Nat × α)) : List α :=
  dealt.filterMap fun deal => if deal.1 = id then some deal.2 else none

@[simp] theorem shareOf_nil (id : Nat) : shareOf id ([] : List (Nat × α)) = [] := rfl

@[simp] theorem shareOf_append (id : Nat) (front back : List (Nat × α)) :
    shareOf id (front ++ back) = shareOf id front ++ shareOf id back :=
  List.filterMap_append

theorem shareOf_cons_self (id : Nat) (item : α) (dealt : List (Nat × α)) :
    shareOf id ((id, item) :: dealt) = item :: shareOf id dealt := by
  simp [shareOf]

theorem shareOf_cons_of_ne {deal : Nat × α} (differ : deal.1 ≠ id) (dealt : List (Nat × α)) :
    shareOf id (deal :: dealt) = shareOf id dealt := by
  simp [shareOf, differ]

/-- A party gets all that is dealt out to it alone. -/
theorem shareOf_eq_map {dealt : List (Nat × α)} (all : ∀ deal ∈ dealt, deal.1 = id) :
    shareOf id dealt = dealt.map Prod.snd := by
  induction dealt with
  | nil => rfl
  | cons deal dealt ih =>
    obtain ⟨first, rest⟩ := List.forall_mem_cons.mp all
    subst first
    rw [shareOf_cons_self, ih rest, List.map_cons]

theorem shareOf_eq_nil {dealt : List (Nat × α)} (none : ∀ deal ∈ dealt, deal.1 ≠ id) :
    shareOf id dealt = [] := by
  induction dealt with
  | nil => rfl
  | cons deal dealt ih =>
    obtain ⟨first, rest⟩ := List.forall_mem_cons.mp none
    rw [shareOf_cons_of_ne first, ih rest]

theorem shareOf_map_self (id : Nat) (items : List α) :
    shareOf id (items.map fun item => (id, item)) = items := by
  rw [shareOf_eq_map]
  · rw [List.map_map]
    exact List.map_id _
  · intro deal member
    obtain ⟨item, _, rfl⟩ := List.mem_map.mp member
    rfl

theorem shareOf_map_of_ne (differ : other ≠ id) (items : List α) :
    shareOf id (items.map fun item => (other, item)) = [] := by
  refine shareOf_eq_nil fun deal member => ?_
  obtain ⟨item, _, rfl⟩ := List.mem_map.mp member
  exact differ

/-- Lists that are dealt out whole may be dealt out item by item. -/
theorem shareOf_flatMap (id : Nat) (dealt : List (Nat × List α)) :
    shareOf id (dealt.flatMap fun deal => deal.2.map fun item => (deal.1, item)) =
      (shareOf id dealt).flatten := by
  induction dealt with
  | nil => rfl
  | cons deal dealt ih =>
    rw [List.flatMap_cons, shareOf_append, ih]
    by_cases same : deal.1 = id
    · subst same
      rw [shareOf_map_self, shareOf_cons_self, List.flatten_cons]
    · rw [shareOf_map_of_ne same, shareOf_cons_of_ne same, List.nil_append]

theorem mem_shareOf {item : α} {dealt : List (Nat × α)} :
    item ∈ shareOf id dealt ↔ (id, item) ∈ dealt := by
  rw [shareOf, List.mem_filterMap]
  constructor
  · rintro ⟨⟨party, thing⟩, member, same⟩
    split at same
    · next here =>
      cases same
      exact here ▸ member
    · cases same
  · intro member
    exact ⟨(id, item), member, if_pos rfl⟩

/-- Where every party gets the same, the same has been dealt out, in some order. -/
theorem perm_of_shareOf {dealt others : List (Nat × α)}
    (same : ∀ id, shareOf id dealt = shareOf id others) : dealt.Perm others := by
  classical
  have counted (list : List (Nat × α)) (id : Nat) (item : α) :
      list.count (id, item) = (shareOf id list).count item := by
    induction list with
    | nil => rfl
    | cons deal list ih =>
      obtain ⟨party, thing⟩ := deal
      by_cases here : party = id
      · subst here
        rw [shareOf_cons_self, List.count_cons, List.count_cons, ih]
        simp
      · rw [shareOf_cons_of_ne here, List.count_cons_of_ne, ih]
        exact fun equal => here (congrArg Prod.fst equal)
  refine List.perm_iff_count.mpr fun deal => ?_
  rw [counted dealt deal.1, counted others deal.1, same]

/-- What becomes of each thing goes to the party that the thing goes to. -/
theorem shareOf_filterMap (id : Nat) (f : α → Option β) (dealt : List (Nat × α)) :
    shareOf id (dealt.filterMap fun deal => (f deal.2).map fun item => (deal.1, item)) =
      (shareOf id dealt).filterMap f := by
  induction dealt with
  | nil => rfl
  | cons deal dealt ih =>
    obtain ⟨party, thing⟩ := deal
    cases found : f thing with
    | none =>
      rw [List.filterMap_cons_none (by simp only [found, Option.map_none]), ih]
      by_cases same : party = id
      · subst same
        rw [shareOf_cons_self, List.filterMap_cons_none found]
      · rw [shareOf_cons_of_ne same]
    | some item =>
      simp only [List.filterMap_cons, found, Option.map_some]
      by_cases same : party = id
      · subst same
        rw [shareOf_cons_self, shareOf_cons_self, List.filterMap_cons_some found, ih]
      · rw [shareOf_cons_of_ne same, shareOf_cons_of_ne same, ih]

/-! ## A number of parties -/

/-- Everything is dealt out to one of the first so many parties. -/
def IsDealtTo (parties : Nat) (dealt : List (Nat × α)) : Prop :=
  ∀ deal ∈ dealt, deal.1 < parties

variable {parties : Nat} {dealt : List (Nat × α)}

theorem IsDealtTo.mono {others : Nat} (within : IsDealtTo parties dealt)
    (same : others = parties) : IsDealtTo others dealt :=
  same ▸ within

theorem IsDealtTo.shareOf_eq_nil (within : IsDealtTo parties dealt) (beyond : parties ≤ id) :
    shareOf id dealt = [] := by
  refine TreeExport.shareOf_eq_nil fun deal member same => ?_
  have below := within deal member
  omega

/-- What is dealt out to the first of all parties alone is its share. -/
theorem IsDealtTo.shareOf_zero (within : IsDealtTo 1 dealt) :
    shareOf 0 dealt = dealt.map Prod.snd :=
  shareOf_eq_map fun deal member => Nat.lt_one_iff.mp (within deal member)

/-- Adding up the shares counts everything once. -/
theorem IsDealtTo.total_shares (within : IsDealtTo parties dealt) :
    total ((List.range parties).map fun id => (shareOf id dealt).length) = dealt.length := by
  induction dealt with
  | nil => exact total_eq_zero fun _ _ => rfl
  | cons deal dealt ih =>
    obtain ⟨first, rest⟩ := List.forall_mem_cons.mp within
    have each (id : Nat) : (shareOf id (deal :: dealt)).length =
        (if deal.1 = id then 1 else 0) + (shareOf id dealt).length := by
      by_cases same : deal.1 = id
      · subst same
        rw [if_pos rfl, shareOf_cons_self, List.length_cons, Nat.add_comm]
      · rw [if_neg same, shareOf_cons_of_ne same, Nat.zero_add]
    simp only [each]
    rw [total_map_add, total_range_single first, ih rest, List.length_cons, Nat.add_comm]

/-- Where every party is dealt one thing, its share is that. -/
theorem shareOf_range (id parties : Nat) (f : Nat → β) :
    shareOf id ((List.range parties).map fun party => (party, f party)) =
      if id < parties then [f id] else [] := by
  induction parties with
  | zero => rfl
  | succ parties ih =>
    rw [List.range_succ, List.map_append, shareOf_append, ih, List.map_singleton]
    rcases Nat.lt_trichotomy id parties with below | rfl | above
    · rw [if_pos below, if_pos (Nat.lt_succ_of_lt below),
        shareOf_cons_of_ne (Nat.ne_of_gt below), shareOf_nil, List.append_nil]
    · rw [if_neg (Nat.lt_irrefl _), if_pos (Nat.lt_succ_self _), shareOf_cons_self, shareOf_nil,
        List.nil_append]
    · rw [if_neg (Nat.lt_asymm above), if_neg (Nat.not_lt.mpr above),
        shareOf_cons_of_ne (Nat.ne_of_lt above), shareOf_nil, List.append_nil]

/-- The shares of all parties are all that has been dealt out, in some order. -/
theorem IsDealtTo.shares_perm (within : IsDealtTo parties dealt) :
    ((List.range parties).flatMap fun id => shareOf id dealt).Perm (dealt.map Prod.snd) := by
  have regrouped : (((List.range parties).map fun id => (id, shareOf id dealt)).flatMap
      fun deal => deal.2.map fun item => (deal.1, item)).Perm dealt := by
    refine perm_of_shareOf fun id => ?_
    rw [shareOf_flatMap, shareOf_range]
    by_cases below : id < parties
    · rw [if_pos below, List.flatten_singleton]
    · rw [if_neg below, within.shareOf_eq_nil (Nat.not_lt.mp below)]
      rfl
  have shares := regrouped.map Prod.snd
  simp only [List.map_flatMap, List.map_map, List.flatMap_map] at shares
  refine .trans (.of_eq ?_) shares
  refine List.flatMap_congr fun id _ => ?_
  exact (List.map_id _).symm

end TreeExport

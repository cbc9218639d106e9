import TreeExport.Proofs.Totals
import TreeExport.Statistics

/-!
# Merging statistics

The statistics of several workers may be merged in any order, and the entries of a histogram that is
taken up may be visited in any order (`Statistics.Gathers`).  What a run does is one of these ways
(`Statistics.Gathers.merge`).
-/

namespace TreeExport

/-- The ways in which a node is turned down. -/
inductive Rejection
  | deleted
  | hidden
  | filtered

namespace Statistics

/-- The number of nodes that were turned down in some way. -/
def rejections (s : Statistics) : Rejection → Nat
  | .deleted => s.deleted
  | .hidden => s.hidden
  | .filtered => s.filtered

/-- The regions of the nodes that were turned down in some way. -/
def regions (s : Statistics) : Rejection → Histogram
  | .deleted => s.deletedRegions
  | .hidden => s.hiddenRegions
  | .filtered => s.filteredRegions

/-- The statistics of two workers together, where the entries of the second one's histograms are
visited in some order. -/
def mergeInOrder (s t : Statistics) (order : Rejection → List (String × Nat)) : Statistics :=
  { s.merge t with
    deletedRegions := s.deletedRegions.absorb (order .deleted) t.deletedRegions.overflowed
    hiddenRegions := s.hiddenRegions.absorb (order .hidden) t.hiddenRegions.overflowed
    filteredRegions := s.filteredRegions.absorb (order .filtered) t.filteredRegions.overflowed }

/-- Some statistics are merged one after the other, the first one last, and the entries of histograms
are visited in whatever order. -/
inductive Gathers : List Statistics → Statistics → Prop
  | nil : Gathers [] {}
  | cons {parts : List Statistics} {part gathered : Statistics}
      {order : Rejection → List (String × Nat)}
      (perm : ∀ kind, (order kind).Perm (part.regions kind).counts)
      (gathers : Gathers parts gathered) : Gathers (part :: parts) (gathered.mergeInOrder part order)

variable {parts : List Statistics} {gathered : Statistics}

theorem regions_mergeInOrder (s t : Statistics) (order : Rejection → List (String × Nat))
    (kind : Rejection) : (s.mergeInOrder t order).regions kind =
      (s.regions kind).absorb (order kind) (t.regions kind).overflowed := by
  cases kind <;> rfl

theorem rejections_mergeInOrder (s t : Statistics) (order : Rejection → List (String × Nat))
    (kind : Rejection) :
    (s.mergeInOrder t order).rejections kind = s.rejections kind + t.rejections kind := by
  cases kind <;> rfl

/-- Visiting entries in the order of their keys is one of the ways. -/
theorem Gathers.merge (gathers : Gathers parts gathered) (part : Statistics) :
    Gathers (part :: parts) (gathered.merge part) :=
  @Gathers.cons _ part _ (fun kind => (part.regions kind).counts) (fun _ => .refl _) gathers

/-- What merging adds up is the sum over all, in whatever order they are merged. -/
theorem Gathers.sum {count : Statistics → Nat} (none : count {} = 0)
    (adds : ∀ s t order, count (mergeInOrder s t order) = count s + count t)
    (gathers : Gathers parts gathered) : count gathered = total (parts.map count) := by
  induction gathers with
  | nil => exact none
  | cons _ _ ih => rw [adds, ih, List.map_cons, total_cons, Nat.add_comm]

end Statistics

end TreeExport

import TreeExport.Proofs.Decimal.Padded
import TreeExport.Proofs.Files.Places
import TreeExport.Store.Writer

/-!
# The names of a store's files

The files of a store have names of their own: no segment is named like another one or like an
intermediate file, and intermediate files of different passes or groups are named differently.
-/

namespace TreeExport

theorem Path.isName_of_long {name : String} (noSlash : '/' ∉ name.toList)
    (long : 2 < name.toList.length) : Path.IsName name := by
  refine ⟨?_, noSlash, ?_, ?_⟩
  · intro empty
    rw [empty] at long
    exact absurd long (by decide)
  · intro dot
    rw [dot] at long
    exact absurd long (by decide)
  · intro dots
    rw [dots] at long
    exact absurd long (by decide)

namespace Store

/-- The name of a segment. -/
def segmentName (number : Nat) : String :=
  s!"segment-{Decimal.padded 6 number}.dat"

/-- The name of an intermediate file. -/
def mergeName (pass group : Nat) : String :=
  s!"merge-{Decimal.padded 3 pass}-{Decimal.padded 6 group}.dat"

theorem toList_segmentName (number : Nat) : (segmentName number).toList =
    "segment-".toList ++ ((Decimal.padded 6 number).toList ++ ".dat".toList) := by
  simp [segmentName, toString, String.toList_append]

theorem toList_mergeName (pass group : Nat) : (mergeName pass group).toList =
    "merge-".toList ++ ((Decimal.padded 3 pass).toList ++
      '-' :: ((Decimal.padded 6 group).toList ++ ".dat".toList)) := by
  simp [mergeName, toString, String.toList_append]

private theorem notMem_padded {width n : Nat} {c : Char} (noDigit : c.isDigit = false) :
    c ∉ (Decimal.padded width n).toList := by
  intro member
  rw [Decimal.isDigit_of_mem_padded member] at noDigit
  cases noDigit

theorem isName_segmentName (number : Nat) : Path.IsName (segmentName number) := by
  have digits : '/' ∉ (Decimal.padded 6 number).toList := notMem_padded (by decide)
  refine Path.isName_of_long ?_ ?_
  · rw [toList_segmentName]
    simp [digits]
  · rw [toList_segmentName]
    simp only [List.length_append]
    have : ("segment-".toList).length = 8 := by decide
    omega

theorem isName_mergeName (pass group : Nat) : Path.IsName (mergeName pass group) := by
  have passDigits : '/' ∉ (Decimal.padded 3 pass).toList := notMem_padded (by decide)
  have groupDigits : '/' ∉ (Decimal.padded 6 group).toList := notMem_padded (by decide)
  refine Path.isName_of_long ?_ ?_
  · rw [toList_mergeName]
    simp [passDigits, groupDigits]
  · rw [toList_mergeName]
    simp only [List.length_append]
    have : ("merge-".toList).length = 6 := by decide
    omega

theorem segmentName_inj {n m : Nat} (same : segmentName n = segmentName m) : n = m := by
  have texts := congrArg String.toList same
  rw [toList_segmentName, toList_segmentName] at texts
  exact Decimal.padded_inj (List.append_cancel_right (List.append_cancel_left texts))

theorem segmentName_ne_mergeName (number pass group : Nat) :
    segmentName number ≠ mergeName pass group := by
  intro same
  have texts := congrArg String.toList same
  rw [toList_segmentName, toList_mergeName] at texts
  have first := congrArg List.head? texts
  simp at first

/-- What stands before the first of a separator is told apart from what stands after it. -/
private theorem append_cons_inj {c : Char} {a b a' b' : List Char} (absent : c ∉ a)
    (absent' : c ∉ a') (same : a ++ c :: b = a' ++ c :: b') : a = a' ∧ b = b' := by
  induction a generalizing a' with
  | nil =>
    cases a' with
    | nil => exact ⟨rfl, (List.cons.inj same).2⟩
    | cons d rest =>
      have first := (List.cons.inj same).1
      exact absurd (first ▸ List.mem_cons_self) absent'
  | cons d rest ih =>
    cases a' with
    | nil =>
      have first := (List.cons.inj same).1
      exact absurd (first ▸ List.mem_cons_self) absent
    | cons d' rest' =>
      obtain ⟨rfl, later⟩ := List.cons.inj same
      obtain ⟨rfl, rfl⟩ := ih (fun inside => absent (List.mem_cons_of_mem _ inside))
        (fun inside => absent' (List.mem_cons_of_mem _ inside)) later
      exact ⟨rfl, rfl⟩

theorem mergeName_inj {pass pass' group group' : Nat}
    (same : mergeName pass group = mergeName pass' group') : pass = pass' ∧ group = group' := by
  have texts := congrArg String.toList same
  rw [toList_mergeName, toList_mergeName] at texts
  obtain ⟨passes, groups⟩ := append_cons_inj (notMem_padded (by decide))
    (notMem_padded (by decide)) (List.append_cancel_left texts)
  exact ⟨Decimal.padded_inj passes, Decimal.padded_inj (List.append_cancel_right groups)⟩

/-! ## Names in the directory of a store -/

theorem isName_manifest : Path.IsName "manifest.json" :=
  Path.isName_of_long (by decide) (by decide)

theorem isName_manifestDraft : Path.IsName "manifest.json.tmp" :=
  Path.isName_of_long (by decide) (by decide)

theorem isName_data : Path.IsName "entries.dat" :=
  Path.isName_of_long (by decide) (by decide)

theorem isName_dataDraft : Path.IsName "entries.dat.tmp" :=
  Path.isName_of_long (by decide) (by decide)

theorem isName_segments : Path.IsName "segments" :=
  Path.isName_of_long (by decide) (by decide)

end Store

end TreeExport

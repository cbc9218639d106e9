import Mathlib.Algebra.Group.Nat.Defs
import TreeExport.Decimal.Padded

/-!
# Padded numbers tell numbers apart
-/

namespace TreeExport.Decimal

theorem toList_padded (width n : Nat) :
    (padded width n).toList =
      List.replicate (width - (toString n).length) '0' ++ Nat.toDigits 10 n := by
  rw [padded, String.toList_append, String.toList_ofList]
  exact congrArg _ Nat.toList_repr

/-- A padded number is read back. -/
theorem ofDigitChars_padded (width n : Nat) :
    Nat.ofDigitChars 10 (padded width n).toList 0 = n := by
  rw [toList_padded, Nat.ofDigitChars_append, Nat.ofDigitChars_replicate_zero, Nat.mul_zero,
    Nat.ofDigitChars_ten_toDigits]

theorem padded_inj {width n m : Nat} (same : (padded width n).toList = (padded width m).toList) :
    n = m := by
  rw [← ofDigitChars_padded width n, same, ofDigitChars_padded]

/-- A number that a width holds takes up just that width. -/
theorem length_padded {width n : Nat} (positive : 0 < width) (fits : n < 10 ^ width) :
    (padded width n).toList.length = width := by
  have short := (Nat.length_toDigits_le_iff (by decide) positive).mpr fits
  have digits : (toString n).length = (Nat.toDigits 10 n).length := by
    rw [← String.length_toList]
    exact congrArg List.length Nat.toList_repr
  rw [toList_padded, List.length_append, List.length_replicate, digits]
  omega

theorem isDigit_of_mem_padded {width n : Nat} {c : Char}
    (member : c ∈ (padded width n).toList) : c.isDigit := by
  rw [toList_padded] at member
  rcases List.mem_append.mp member with zero | digit
  · rw [(List.mem_replicate.mp zero).2]
    rfl
  · exact Nat.isDigit_of_mem_toDigits (by decide) (by decide) digit

end TreeExport.Decimal

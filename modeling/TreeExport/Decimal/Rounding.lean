/-!
# Rounding a quotient

`roundHalfEven` is the one rounding rule of the library: to the nearest whole number, and of two
that are equally near to the even one.  Fixed decimal places and the significand of a binary
fraction both come from it.
-/

namespace TreeExport.Decimal

/-- The whole number nearest to `num / den`, a half going to the even neighbour. -/
def roundHalfEven (num den : Nat) : Nat :=
  let whole := num / den
  let rest := num % den
  if 2 * rest < den then whole
  else if den < 2 * rest then whole + 1
  else if whole % 2 = 0 then whole
  else whole + 1

/-- The rounded number is within half a unit of the quotient. -/
theorem roundHalfEven_near (num : Nat) {den : Nat} (positive : 0 < den) :
    2 * num ≤ 2 * (den * roundHalfEven num den) + den ∧
      2 * (den * roundHalfEven num den) ≤ 2 * num + den := by
  have split := Nat.div_add_mod num den
  have below := Nat.mod_lt num positive
  unfold roundHalfEven
  simp only
  split
  · omega
  · split
    · simp only [Nat.mul_add, Nat.mul_one]; omega
    · split
      · omega
      · simp only [Nat.mul_add, Nat.mul_one]; omega

/-- `num / den` with one decimal place, a half going to the even neighbour. -/
def onePlace (num den : Nat) : String :=
  let tenths := roundHalfEven (10 * num) den
  s!"{tenths / 10}.{tenths % 10}"

end TreeExport.Decimal

import TreeExport.Decimal.Rounding

/-!
# Binary fractions of 64 bits

The finite numbers of the binary64 format, as a sign and a `Magnitude`, which is a whole number
of units `2^-1074`.  `Magnitude.ofRatio?` rounds an exact quotient to the format; products and
quotients of magnitudes are the exact ones, rounded once.
-/

namespace TreeExport.Decimal

/-- The magnitude `mantissa · 2^shift · 2^-1074`.  A rounded magnitude has a mantissa of 53 bits,
or no shift. -/
structure Magnitude where
  mantissa : Nat
  shift : Nat
  deriving Repr, DecidableEq

namespace Magnitude

/-- Zero. -/
def zero : Magnitude := ⟨0, 0⟩

/-- The magnitude in units of `2^-1074`. -/
def units (m : Magnitude) : Nat :=
  m.mantissa <<< m.shift

/-- The least mantissa of 53 bits, `2^52`. -/
def fullMantissa : Nat := 0x10000000000000

/-- The greatest shift of a finite magnitude. -/
def maxShift : Nat := 2045

/-- The magnitude nearest to `num / den`, if that is finite.  The shift is the least one that
leaves a mantissa of at most 53 bits, so small quotients keep the unit `2^-1074`. -/
def ofRatio? (num den : Nat) : Option Magnitude :=
  let units := num <<< 1074
  let shift := (units / den).log2 + 1 - 53
  let mantissa := roundHalfEven units (den <<< shift)
  let rounded : Magnitude :=
    if mantissa = 2 * fullMantissa then ⟨fullMantissa, shift + 1⟩ else ⟨mantissa, shift⟩
  if rounded.shift ≤ maxShift then some rounded else none

/-- The magnitude nearest to a whole number of 64 bits. -/
def ofNat (n : Nat) : Magnitude :=
  (ofRatio? n 1).getD zero

/-- The magnitude nearest to a power of ten up to `10^308`. -/
def powerOfTen (k : Nat) : Magnitude :=
  ofNat (Nat.pow 10 k)

/-- The rounded product, if it is finite. -/
def mul? (a b : Magnitude) : Option Magnitude :=
  ofRatio? (a.units * b.units) (1 <<< 2148)

/-- The rounded quotient of a magnitude by one that is at least one. -/
def div (a b : Magnitude) : Magnitude :=
  (ofRatio? a.units b.units).getD zero

end Magnitude

/-- A finite number of the binary64 format. -/
structure Binary64 where
  negative : Bool
  magnitude : Magnitude
  deriving Repr, DecidableEq

/-- The greatest power of ten that the scaling steps use. -/
def maxPower : Nat := 308

/-- Divides by `10^k`, at most `10^308` at a time, rounding after each division; what has become
zero stays zero. -/
def scaleDown (m : Magnitude) (k : Nat) : Magnitude :=
  if k ≤ maxPower then m.div (.powerOfTen k)
  else if m.mantissa = 0 then m
  else scaleDown (m.div (.powerOfTen maxPower)) (k - maxPower)
termination_by k
decreasing_by
  simp only [maxPower] at *
  omega

/-- The magnitude read from `significand · 10^exponent`: the significand is rounded, then scaled
by a rounded power of ten.  There is none if the scaled number is too great for the format. -/
def scaled? (significand : Nat) (exponent : Int) : Option Magnitude :=
  let start := Magnitude.ofNat significand
  match exponent with
  | .ofNat k =>
    if k ≤ maxPower then start.mul? (.powerOfTen k)
    else if start.mantissa = 0 then some start
    else none
  | .negSucc k => some (scaleDown start (k + 1))

end TreeExport.Decimal

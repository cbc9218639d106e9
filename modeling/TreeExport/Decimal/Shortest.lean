import TreeExport.Decimal.Binary64

/-!
# Shortest decimals

The decimal that stands for a binary fraction is the one with the fewest digits among those that
round to it, and of these the nearest.  `shortest` looks for it on one decimal grid after the
other, the coarsest first: a grid has a point in the interval of the numbers that round to the
fraction only if one of the fraction's two neighbours on the grid is such a point.
-/

namespace TreeExport.Decimal

/-- The number `significand · 10^exponent`. -/
structure Scientific where
  significand : Nat
  exponent : Int
  deriving Repr, DecidableEq

/-- A positive magnitude with the ends of the interval that rounds to it, all times `scale`; the
ends belong to the interval if `closed`. -/
structure Interval where
  low : Nat
  value : Nat
  high : Nat
  scale : Nat
  closed : Bool
  deriving Repr

/-- The interval of a magnitude.  Below a power of two the neighbours lie half as far apart as
above it. -/
def Magnitude.interval (m : Magnitude) : Interval where
  low :=
    (if m.mantissa = fullMantissa ∧ 0 < m.shift then 4 * m.mantissa - 1 else 4 * m.mantissa - 2)
      <<< m.shift
  value := (4 * m.mantissa) <<< m.shift
  high := (4 * m.mantissa + 2) <<< m.shift
  scale := 4 <<< 1074
  closed := m.mantissa % 2 == 0

/-- The least `k ≤ bound` with `num · 10^k ≥ den`, counted on from `start`. -/
def leadingZeros (num den bound start : Nat) : Nat :=
  match bound with
  | 0 => start
  | bound + 1 => if den ≤ num then start else leadingZeros (num * 10) den bound (start + 1)

/-- The position of the decimal point of `num / den` counted from its first digit: the least `e`
with `num / den < 10^e`. -/
def pointPosition (num den : Nat) : Int :=
  if den ≤ num then ((Nat.toDigits 10 (num / den)).length : Int)
  else 1 - (leadingZeros num den 400 0 : Int)

/-- The point of the grid `10^exponent` that stands for the interval's value, if one of the two
neighbours of the value lies in the interval: the nearer of them, or the even one. -/
def Interval.onGrid? (i : Interval) (exponent : Int) : Option Nat :=
  let up := Nat.pow 10 exponent.toNat
  let down := Nat.pow 10 (-exponent).toNat
  let unit := i.scale * up
  let value := i.value * down
  let below := value / unit
  let inside (g : Nat) : Bool :=
    if i.closed then i.low * down ≤ g * unit && g * unit ≤ i.high * down
    else i.low * down < g * unit && g * unit < i.high * down
  match inside below, inside (below + 1) with
  | false, false => none
  | true, false => some below
  | false, true => some (below + 1)
  | true, true => some (roundHalfEven value unit)

/-- Tries grids with `digits`, `digits + 1`, … digits, `tries` of them. -/
def Interval.search (i : Interval) (point : Int) (digits : Nat) : Nat → Scientific
  | 0 => ⟨0, 0⟩
  | tries + 1 =>
    match i.onGrid? (point - digits) with
    | some g => ⟨g, point - digits⟩
    | none => i.search point (digits + 1) tries

/-- The decimal with the fewest digits that rounds to the magnitude; seventeen digits always
suffice. -/
def Magnitude.shortest (m : Magnitude) : Scientific :=
  if m.mantissa = 0 then ⟨0, 0⟩
  else m.interval.search (pointPosition m.units (1 <<< 1074)) 1 17

/-! ## Laying out a decimal -/

/-- Where a decimal is written in positions and how it is written otherwise. -/
structure Layout where
  /-- The least position of the point, counted from the first digit, that is written out. -/
  lowest : Int
  /-- The greatest such position. -/
  highest : Int
  /-- What stands before the exponent. -/
  mark : String
  /-- What stands before an exponent that is not negative. -/
  plus : String

/-- The digits of a decimal without the zeros at its end, and the position of its point counted
from the first digit. -/
def Scientific.digits (s : Scientific) : List Char × Int :=
  let written := Nat.toDigits 10 s.significand
  let kept := (written.reverse.dropWhile (· == '0')).reverse
  (if kept.isEmpty then ['0'] else kept, written.length + s.exponent)

/-- The text of a positive decimal; in positions it has a digit on either side of the point. -/
def Layout.render (layout : Layout) (s : Scientific) : List Char :=
  let (digits, point) := s.digits
  if layout.lowest ≤ point ∧ point ≤ layout.highest then
    if point ≤ 0 then
      '0' :: '.' :: List.replicate (-point).toNat '0' ++ digits
    else
      let whole := point.toNat
      let missing := whole - digits.length
      let fraction := digits.drop whole
      digits.take whole ++ List.replicate missing '0' ++
        '.' :: (if fraction.isEmpty then ['0'] else fraction)
  else
    let exponent := point - 1
    let fraction := digits.drop 1
    digits.take 1 ++ (if fraction.isEmpty then [] else '.' :: fraction) ++
      layout.mark.toList ++ (if exponent < 0 then ['-'] else layout.plus.toList) ++
      Nat.toDigits 10 exponent.natAbs

/-- The text of a binary fraction; zero has one digit on either side of the point. -/
def Binary64.render (layout : Layout) (x : Binary64) : List Char :=
  let magnitude :=
    if x.magnitude.mantissa = 0 then ['0', '.', '0'] else layout.render x.magnitude.shortest
  if x.negative then '-' :: magnitude else magnitude

end TreeExport.Decimal

import TreeExport.Json.Value

/-!
# JSON numerals

A `Numeral` is a number as it is written.  Its value is whole if it has neither fraction nor
exponent and fits in 64 bits; otherwise the leading digits that fit in 64 bits are scaled by a
power of ten, and the numeral has no value if that leaves the range of binary fractions.
-/

namespace TreeExport.Json

/-- A written number: its sign, its digits before and after the point, and its exponent. -/
structure Numeral where
  negative : Bool
  whole : List Nat
  fraction : List Nat
  exponent : Option (Bool × List Nat)
  /-- The numeral has a point or an exponent. -/
  broken : Bool
  deriving Repr, DecidableEq

namespace Numeral

/-- The digit that a character is. -/
def digit? (c : Char) : Option Nat :=
  if '0' ≤ c ∧ c ≤ '9' then some (c.toNat - 48) else none

/-- The digits of a text that holds nothing else. -/
def digits? (cs : List Char) : Option (List Nat) :=
  cs.mapM digit?

/-- Reads the exponent that follows its mark: a sign or none, and at least one digit. -/
def exponent? (cs : List Char) : Option (Bool × List Nat) :=
  let (negative, rest) :=
    match cs with
    | '-' :: rest => (true, rest)
    | '+' :: rest => (false, rest)
    | _ => (false, cs)
  if rest.isEmpty then none else (digits? rest).map (negative, ·)

/-- The character marks an exponent. -/
def isMark (c : Char) : Bool := c == 'e' || c == 'E'

/-- Reads a whole numeral: no needless zero in front, a digit on either side of the point. -/
def ofChars? (cs : List Char) : Option Numeral := do
  let (negative, body) :=
    match cs with
    | '-' :: rest => (true, rest)
    | _ => (false, cs)
  let mantissa := body.takeWhile (!isMark ·)
  let marked := body.dropWhile (!isMark ·)
  let exponent ← match marked with
    | [] => some none
    | _ :: rest => (exponent? rest).map some
  let whole ← digits? (mantissa.takeWhile (· != '.'))
  let fraction ← match mantissa.dropWhile (· != '.') with
    | [] => some []
    | _ :: rest => if rest.isEmpty then none else digits? rest
  match whole with
  | [] => none
  | 0 :: _ :: _ => none
  | _ =>
    some ⟨negative, whole, fraction, exponent, !fraction.isEmpty || exponent.isSome⟩

/-- The magnitude of the least whole number, `2^63`. -/
def maxNegative : Nat := 0x8000000000000000

/-- The greatest number of 64 bits, `2^64 - 1`. -/
def maxWord : Nat := 0xFFFFFFFFFFFFFFFF

/-- The digits before the point, as many as fit in 64 bits, and the number of those left out. -/
def gatherWhole (significand left : Nat) : List Nat → Nat × Nat
  | [] => (significand, left)
  | d :: rest =>
    if left = 0 ∧ significand * 10 + d ≤ maxWord then gatherWhole (significand * 10 + d) 0 rest
    else gatherWhole significand (left + 1) rest

/-- Goes on with the digits after the point, as many as fit in 64 bits, and counts them. -/
def gatherFraction (significand taken : Nat) : List Nat → Nat × Nat
  | [] => (significand, taken)
  | d :: rest =>
    if significand * 10 + d ≤ maxWord then gatherFraction (significand * 10 + d) (taken + 1) rest
    else (significand, taken)

/-- The greatest exponent that is read as a number, `2^31 - 1`. -/
def maxExponent : Nat := 0x7FFFFFFF

/-- The number that digits stand for. -/
def ofDigits (digits : List Nat) : Nat :=
  digits.foldl (fun n d => n * 10 + d) 0

/-- The magnitude of a significand with an exponent.  An exponent too great to be read makes a
negative power zero and a positive one too great, unless the significand is zero. -/
def magnitude? (significand : Nat) (shift : Int) :
    Option (Bool × List Nat) → Option Decimal.Magnitude
  | none => Decimal.scaled? significand shift
  | some (negative, digits) =>
    let exponent := ofDigits digits
    if maxExponent < exponent then
      if significand ≠ 0 ∧ ¬ negative then none else some .zero
    else
      Decimal.scaled? significand (if negative then shift - exponent else shift + exponent)

/-- The value of a numeral.  A negative whole number must be below zero and fit in 64 bits with
its sign; all other numerals are binary fractions, minus zero among them. -/
def value? (n : Numeral) : Option Number :=
  let (significand, left) := gatherWhole 0 0 n.whole
  if n.broken ∨ left ≠ 0 then
    let (significand, taken) := gatherFraction significand 0 n.fraction
    (magnitude? significand ((left : Int) - taken) n.exponent).map fun m =>
      .fraction ⟨n.negative, m⟩
  else if ¬ n.negative then some (.whole significand)
  else if 0 < significand ∧ significand ≤ maxNegative then some (.whole (-significand))
  else some (.fraction ⟨true, .ofNat significand⟩)

end Numeral

end TreeExport.Json

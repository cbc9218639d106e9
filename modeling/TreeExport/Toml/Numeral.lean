import TreeExport.Decimal.Binary64
import TreeExport.Toml.Lexeme
import TreeExport.Toml.Value

/-!
# Numbers, dates and times in TOML

Each reader takes as much as can be part of a number, a date or a time.  Whole numbers must fit in
64 bits with their sign; a fraction must not be too great.
-/

namespace TreeExport.Toml

/-- The value of a digit to a base of at most sixteen. -/
def digitValue? (base : Nat) (c : Char) : Option Nat :=
  (hexValue? c).filter (· < base)

/-- Reads digits that follow others; a single underscore may stand between two digits. -/
def moreDigits (base : Nat) : List Char → List Nat × List Char
  | '_' :: c :: rest =>
    match digitValue? base c with
    | some digit =>
      let (digits, rest) := moreDigits base rest
      (digit :: digits, rest)
    | none => ([], '_' :: c :: rest)
  | c :: rest =>
    match digitValue? base c with
    | some digit =>
      let (digits, rest) := moreDigits base rest
      (digit :: digits, rest)
    | none => ([], c :: rest)
  | [] => ([], [])

/-- Reads at least one digit. -/
def digits? (base : Nat) : Reader (List Nat)
  | c :: rest =>
    (digitValue? base c).map fun digit =>
      let (digits, rest) := moreDigits base rest
      (digit :: digits, rest)
  | [] => none

/-- The number that digits stand for. -/
def ofDigits (base : Nat) (digits : List Nat) : Nat :=
  digits.foldl (fun n digit => n * base + digit) 0

/-- Reads a sign or none; the answer says whether it is a minus. -/
def sign : List Char → Bool × List Char
  | '-' :: rest => (true, rest)
  | '+' :: rest => (false, rest)
  | rest => (false, rest)

/-- Reads the digits before a point: zero alone, or digits that do not begin with zero. -/
def wholeDigits? : Reader (List Nat)
  | '0' :: rest => some ([0], rest)
  | cs => digits? 10 cs

/-- The magnitude of the least whole number, `2^63`. -/
def wordBound : Nat := 0x8000000000000000

/-- The whole number, if it fits in 64 bits with its sign. -/
def word? (negative : Bool) (n : Nat) : Option Toml :=
  if negative then (if n ≤ wordBound then some (.integer (-n)) else none)
  else if n < wordBound then some (.integer n)
  else none

/-- Reads a whole number. -/
def integer? : Reader Toml := fun cs =>
  let based (base : Nat) (cs : List Char) : Option (Toml × List Char) := do
    let (digits, rest) ← digits? base cs
    pure (← word? false (ofDigits base digits), rest)
  match cs with
  | '0' :: 'x' :: rest => based 16 rest
  | '0' :: 'o' :: rest => based 8 rest
  | '0' :: 'b' :: rest => based 2 rest
  | cs => do
    let (negative, body) := sign cs
    let (digits, rest) ← wholeDigits? body
    pure (← word? negative (ofDigits 10 digits), rest)

/-- A number of decimal digits with an exponent is not too great to be a fraction. -/
def isFinite (digits : List Nat) (exponent : Int) : Bool :=
  let n := ofDigits 10 digits
  if n = 0 ∨ exponent + digits.length < 0 then true
  else if 400 < exponent + (toString n).length then false
  else
    let scale := Nat.pow 10 exponent.toNat
    (Decimal.Magnitude.ofRatio? (n * scale) (Nat.pow 10 (-exponent).toNat)).isSome

/-- Reads an exponent. -/
def exponent? : Reader Int
  | c :: rest =>
    if c = 'e' ∨ c = 'E' then do
      let (negative, body) := sign rest
      let (digits, rest) ← digits? 10 body
      let n : Int := ofDigits 10 digits
      pure (if negative then -n else n, rest)
    else none
  | [] => none

/-- Reads a fraction: a whole number with a point and digits, with an exponent, or with both. -/
def fraction? : Reader Toml := fun cs => do
  let (negative, body) := sign cs
  let (whole, rest) ← wholeDigits? body
  let (places, afterPoint, pointed) ← match rest with
    | '.' :: more => (digits? 10 more).map fun (places, rest) => (places, rest, true)
    | rest => some ([], rest, false)
  let (exponent, rest) ← match exponent? afterPoint with
    | some (exponent, rest) => some (exponent, rest)
    | none => if pointed then some (0, afterPoint) else none
  if negative || isFinite (whole ++ places) (exponent - places.length) then
    pure (.fraction, rest)
  else none

/-- Reads infinity, or what is no number. -/
def special? : Reader Toml := fun cs =>
  match (sign cs).2 with
  | 'i' :: 'n' :: 'f' :: rest => some (.fraction, rest)
  | 'n' :: 'a' :: 'n' :: rest => some (.fraction, rest)
  | _ => none

/-! ## Dates and times -/

/-- Reads exactly so many digits. -/
def fixedDigits? (width : Nat) : Reader Nat := fun cs =>
  let front := cs.take width
  if front.length = width ∧ front.all Char.isDigit then
    some (ofDigits 10 (front.filterMap hexValue?), cs.drop width)
  else none

/-- Reads a number of two digits within bounds. -/
def twoDigits? (low high : Nat) : Reader Nat := fun cs =>
  (fixedDigits? 2 cs).filter fun (n, _) => low ≤ n && n ≤ high

/-- Reads a character. -/
def mark? (c : Char) : List Char → Option (List Char)
  | d :: rest => if d = c then some rest else none
  | [] => none

/-- The number of days of a month. -/
def daysInMonth (year month : Nat) : Nat :=
  if month = 2 then
    (if year % 4 = 0 ∧ (year % 100 ≠ 0 ∨ year % 400 = 0) then 29 else 28)
  else if month = 4 ∨ month = 6 ∨ month = 9 ∨ month = 11 then 30
  else 31

/-- Passes over a date. -/
def date? (cs : List Char) : Option (List Char) := do
  let (year, cs) ← fixedDigits? 4 cs
  let (month, cs) ← twoDigits? 1 12 (← mark? '-' cs)
  let (_, cs) ← twoDigits? 1 (daysInMonth year month) (← mark? '-' cs)
  pure cs

/-- Passes over a time of day. -/
def timeOfDay? (cs : List Char) : Option (List Char) := do
  let (_, cs) ← twoDigits? 0 23 cs
  let (_, cs) ← twoDigits? 0 59 (← mark? ':' cs)
  let (_, cs) ← twoDigits? 0 60 (← mark? ':' cs)
  match cs with
  | '.' :: rest =>
    let afterPlaces := rest.dropWhile Char.isDigit
    pure (if afterPlaces.length = rest.length then cs else afterPlaces)
  | rest => pure rest

/-- Passes over an offset, if there is one. -/
def skipOffset (cs : List Char) : List Char :=
  match cs with
  | 'Z' :: rest => rest
  | 'z' :: rest => rest
  | c :: rest =>
    if c = '+' ∨ c = '-' then
      let offset : Option (List Char) := do
        let (_, cs) ← twoDigits? 0 23 rest
        let (_, cs) ← twoDigits? 0 59 (← mark? ':' cs)
        pure cs
      offset.getD cs
    else cs
  | [] => cs

/-- Reads a date, a time, or both. -/
def time? : Reader Toml := fun cs =>
  match date? cs with
  | some rest =>
    match rest with
    | c :: more =>
      if c = 'T' ∨ c = 't' ∨ c = ' ' then
        match timeOfDay? more with
        | some afterTime => some (.time, skipOffset afterTime)
        | none => some (.time, rest)
      else some (.time, rest)
    | [] => some (.time, [])
  | none => (timeOfDay? cs).map fun rest => (.time, rest)

/-- Reads a number, a date or a time. -/
def numeral? : Reader Toml := fun cs =>
  (time? cs).or ((fraction? cs).or ((special? cs).or (integer? cs)))

end TreeExport.Toml

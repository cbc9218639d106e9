import TreeExport.Decimal.Padded
import TreeExport.Text.Blank

/-!
# Moments

Points in time, in seconds of the civil calendar since the start of 1970.  A moment is written as a
date, a time and a `Z`; it is read back from that form and from its usual variants: blanks between
the parts, fewer digits, an offset from the prime meridian.
-/

namespace TreeExport

/-- A moment: whole seconds since the start of 1970 and nanoseconds, which go on beyond a second in
a leap second. -/
structure Moment where
  seconds : Int
  nanoseconds : Nat := 0
  deriving Repr, DecidableEq

namespace Moment

open Decimal (padded)

/-- The year has a 29th of February. -/
def isLeapYear (year : Int) : Bool :=
  year % 4 == 0 && (year % 100 != 0 || year % 400 == 0)

/-- The number of days of a month. -/
def daysInMonth (year : Int) (month : Nat) : Nat :=
  if month = 2 then (if isLeapYear year then 29 else 28)
  else if month = 4 ∨ month = 6 ∨ month = 9 ∨ month = 11 then 30
  else 31

/-- The days from the start of 1970 to a date.  Years are counted from March, so that the leap day
is the last of a year, and in eras of 400 years. -/
def dayNumber (year : Int) (month day : Nat) : Int :=
  let y := if month ≤ 2 then year - 1 else year
  let era := y.fdiv 400
  let yearOfEra := y - era * 400
  let shifted : Int := if 2 < month then month - 3 else month + 9
  let dayOfYear := (153 * shifted + 2) / 5 + day - 1
  let dayOfEra := yearOfEra * 365 + yearOfEra / 4 - yearOfEra / 100 + dayOfYear
  era * 146097 + dayOfEra - 719468

/-- The date that lies some days after the start of 1970: year, month and day. -/
def dateOfDay (number : Int) : Int × Nat × Nat :=
  let z := number + 719468
  let era := z.fdiv 146097
  let dayOfEra := z - era * 146097
  let yearOfEra := (dayOfEra - dayOfEra / 1460 + dayOfEra / 36524 - dayOfEra / 146096) / 365
  let dayOfYear := dayOfEra - (365 * yearOfEra + yearOfEra / 4 - yearOfEra / 100)
  let shifted := (5 * dayOfYear + 2) / 153
  let day := dayOfYear - (153 * shifted + 2) / 5 + 1
  let month := if shifted < 10 then shifted + 3 else shifted - 9
  let year := yearOfEra + era * 400 + (if month ≤ 2 then 1 else 0)
  (year, month.toNat, day.toNat)

/-- The fraction of a second: none, or as few groups of three digits as hold it. -/
def fractionText (nanoseconds : Nat) : String :=
  if nanoseconds = 0 then ""
  else if nanoseconds % 1000000 = 0 then s!".{padded 3 (nanoseconds / 1000000)}"
  else if nanoseconds % 1000 = 0 then s!".{padded 6 (nanoseconds / 1000)}"
  else s!".{padded 9 nanoseconds}"

/-- A year in four digits, or with a sign if four digits do not hold it. -/
def yearText (year : Int) : String :=
  if year < 0 then s!"-{padded 4 year.natAbs}"
  else if 9999 < year then s!"+{year}"
  else padded 4 year.toNat

/-- The moment as a date and a time. -/
def render (moment : Moment) : String :=
  let day := moment.seconds.fdiv 86400
  let second := (moment.seconds - day * 86400).toNat
  let leap := moment.nanoseconds / 1000000000
  let (year, month, dayOfMonth) := dateOfDay day
  s!"{yearText year}-{padded 2 month}-{padded 2 dayOfMonth}T" ++
    s!"{padded 2 (second / 3600)}:{padded 2 (second / 60 % 60)}:{padded 2 (second % 60 + leap)}" ++
    s!"{fractionText (moment.nanoseconds % 1000000000)}Z"

/-- The nanoseconds from one moment to a later one. -/
def elapsed (start finish : Moment) : Nat :=
  ((finish.seconds - start.seconds) * 1000000000 + finish.nanoseconds - start.nanoseconds).toNat

/-- A length of time with three decimal places, in the greatest unit of which it is at least one. -/
def durationText (nanoseconds : Nat) : String :=
  let inUnit (unit : Nat) (name : String) : String :=
    let thousandths := nanoseconds * 1000 / unit
    s!"{thousandths / 1000}.{padded 3 (thousandths % 1000)}{name}"
  if 1000000000 ≤ nanoseconds then inUnit 1000000000 "s"
  else if 1000000 ≤ nanoseconds then inUnit 1000000 "ms"
  else if 1000 ≤ nanoseconds then inUnit 1000 "µs"
  else inUnit 1 "ns"

/-! ## Reading -/

/-- Blanks at the start are passed over. -/
def skipBlanks (cs : List Char) : List Char :=
  cs.dropWhile Text.isBlank

/-- A number of at most `width` digits, and what follows. -/
def digits? (width : Nat) (cs : List Char) : Option (Nat × List Char) :=
  let digits := (cs.take width).takeWhile (·.isDigit)
  if digits.isEmpty then none
  else some (digits.foldl (fun n c => n * 10 + (c.toNat - 48)) 0, cs.drop digits.length)

/-- A number of at most `width` digits after blanks, and what follows. -/
def number? (width : Nat) (cs : List Char) : Option (Nat × List Char) :=
  digits? width (skipBlanks cs)

/-- A character after blanks. -/
def mark? (c : Char) (cs : List Char) : Option (List Char) :=
  match skipBlanks cs with
  | d :: rest => if d = c then some rest else none
  | [] => none

/-- A year, which may have a sign and then any number of digits. -/
def year? (cs : List Char) : Option (Int × List Char) :=
  match skipBlanks cs with
  | '-' :: rest => (digits? rest.length rest).map fun (n, rest) => (-(n : Int), rest)
  | '+' :: rest => (digits? rest.length rest).map fun (n, rest) => ((n : Int), rest)
  | rest => (digits? 4 rest).map fun (n, rest) => ((n : Int), rest)

/-- A fraction of a second, of which nine digits count. -/
def fraction? : List Char → Option (Nat × List Char)
  | '.' :: rest =>
    let digits := rest.takeWhile (·.isDigit)
    let kept := digits.take 9
    if digits.isEmpty then none
    else
      some (kept.foldl (fun n c => n * 10 + (c.toNat - 48)) 0 * Nat.pow 10 (9 - kept.length),
        rest.drop digits.length)
  | rest => some (0, rest)

/-- Two digits and what follows. -/
def twoDigits? : List Char → Option (Nat × List Char)
  | a :: b :: rest =>
    if a.isDigit ∧ b.isDigit then some ((a.toNat - 48) * 10 + (b.toNat - 48), rest) else none
  | _ => none

/-- An offset in seconds: `Z`, `UTC`, or a sign, hours and minutes. -/
def offset? (cs : List Char) : Option (Int × List Char) :=
  match skipBlanks cs with
  | c :: rest =>
    if c = 'Z' ∨ c = 'z' then some (0, rest)
    else if ((c :: rest).take 3).map Char.toLower = ['u', 't', 'c'] then some (0, rest.drop 2)
    else if c = '+' ∨ c = '-' ∨ c = '\u2212' then do
      let (hours, rest) ← twoDigits? rest
      let (minutes, rest) ← twoDigits? (rest.dropWhile fun d => d == ':' || Text.isBlank d)
      if 59 < minutes then none
      else
        let total : Int := hours * 3600 + minutes * 60
        some (if c = '+' then total else -total, rest)
    else none
  | [] => none

/-- The year is one that moments are counted in. -/
def isYear (year : Int) : Bool :=
  -262143 ≤ year && year ≤ 262142

/-- The moment that a text names.  A leap second is counted as the second before it, so that it is
part of the same day. -/
def read? (text : String) : Option Moment := do
  let (year, cs) ← year? text.toList
  let (month, cs) ← number? 2 (← mark? '-' cs)
  let (day, cs) ← number? 2 (← mark? '-' cs)
  let cs ← match cs with
    | c :: rest => if c = 'T' ∨ c = 't' ∨ c = ' ' then some rest else none
    | [] => none
  let (hour, cs) ← number? 2 cs
  let (minute, cs) ← number? 2 (← mark? ':' cs)
  let (second, cs) ← number? 2 (← mark? ':' cs)
  let (nanoseconds, cs) ← fraction? cs
  let (offset, cs) ← offset? cs
  let leap := if second = 60 then 1000000000 else 0
  let seconds :=
    dayNumber year month day * 86400 + hour * 3600 + minute * 60 + min second 59 - offset
  if month = 0 ∨ 12 < month ∨ day = 0 ∨ daysInMonth year month < day ∨ 23 < hour ∨ 59 < minute ∨
      60 < second ∨ 86400 ≤ offset.natAbs ∨ !(skipBlanks cs).isEmpty ∨ !isYear year ∨
      !isYear (dateOfDay (seconds.fdiv 86400)).1 then
    none
  else some ⟨seconds, nanoseconds + leap⟩

end Moment

end TreeExport

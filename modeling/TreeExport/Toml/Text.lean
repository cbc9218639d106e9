/-!
# Writing TOML

A string is written in the first of four ways that shows it as it stands; only if there is none, or
if it holds controls, is it written with escapes.  Arrays of several items are written one to a
line.
-/

namespace TreeExport.Toml

/-- The upper-case hexadecimal digit of a number below sixteen. -/
def hexDigit (n : Nat) : Char :=
  if n < 10 then Char.ofNat (48 + n) else Char.ofNat (55 + n)

/-! ## Strings -/

/-- The marks that a string is written between: quotes or apostrophes, one for a text on one line
and three for a text on many. -/
inductive Marks
  | quotes
  | apostrophes
  | threeQuotes
  | threeApostrophes
  deriving Repr, DecidableEq

/-- The character can only be written as an escape: it is a control other than a tab or a new
line. -/
def isCoded (c : Char) : Bool :=
  (c.toNat < 0x20 && c != '\t' && c != '\n') || c.toNat == 0x7F

/-- The length of the longest stretch of a mark, if `run` of them come before the text. -/
def longestRun (mark : Char) (run : Nat) : List Char → Nat
  | [] => run
  | c :: rest =>
    if c = mark then longestRun mark (run + 1) rest else max run (longestRun mark 0 rest)

/-- The marks for a text: the first of the four that show it as it stands.  A mark may not stand in
what single marks enclose, nor three of them in a row in what three enclose, and between quotes a
backslash would start an escape. -/
def Marks.ofText (cs : List Char) : Marks :=
  let manyLines := cs.contains '\n'
  let backslash := cs.contains '\\'
  let coded := cs.any isCoded
  let quotes := longestRun '"' 0 cs
  let apostrophes := longestRun '\'' 0 cs
  if !coded && !manyLines && !backslash && quotes = 0 then .quotes
  else if !coded && !manyLines && apostrophes = 0 then .apostrophes
  else if !coded && !backslash && quotes ≤ 2 then .threeQuotes
  else if !coded && apostrophes ≤ 2 then .threeApostrophes
  else if manyLines then .threeQuotes
  else .quotes

/-- A character other than a quote between quotes: controls and backslashes are escaped, but new
lines only within one line. -/
def escapeChar (manyLines : Bool) (c : Char) : List Char :=
  if c = '\\' then ['\\', '\\']
  else if c = '\x08' then ['\\', 'b']
  else if c = '\t' then ['\\', 't']
  else if c = '\n' then (if manyLines then ['\n'] else ['\\', 'n'])
  else if c = '\x0c' then ['\\', 'f']
  else if c = '\r' then ['\\', 'r']
  else if isCoded c then
    ['\\', 'u', '0', '0', hexDigit (c.toNat / 16), hexDigit (c.toNat % 16)]
  else [c]

/-- A text between quotes, of which `run` stand before it as they are.  Within one line every quote
is escaped; within many, each third in a row. -/
def escape (manyLines : Bool) (run : Nat) : List Char → List Char
  | [] => []
  | c :: rest =>
    if c = '"' then
      if manyLines ∧ run < 2 then '"' :: escape manyLines (run + 1) rest
      else '\\' :: '"' :: escape manyLines 0 rest
    else escapeChar manyLines c ++ escape manyLines 0 rest

/-- A string as it is written.  A new line right after three marks does not belong to the text, so
a text of many lines starts on a line of its own. -/
def quote (s : String) : String :=
  let cs := s.toList
  let start := if cs.contains '\n' then "\n" else ""
  match Marks.ofText cs with
  | .quotes => s!"\"{String.ofList (escape false 0 cs)}\""
  | .apostrophes => s!"'{s}'"
  | .threeQuotes => "\"\"\"" ++ start ++ String.ofList (escape true 0 cs) ++ "\"\"\""
  | .threeApostrophes => s!"'''{start}{s}'''"

/-! ## Documents -/

/-- An array of strings as it is written. -/
def quoteAll : List String → String
  | [] => "[]"
  | [s] => s!"[{quote s}]"
  | items => "[\n" ++ String.join (items.map fun s => s!"    {quote s},\n") ++ "]"

/-- A key and a written value on a line of their own. -/
def pairLine (key value : String) : String :=
  s!"{key} = {value}\n"

/-- A section: its name in brackets, and its pairs. -/
def sectionText (name : String) (pairs : List (String × String)) : String :=
  s!"[{name}]\n" ++ String.join (pairs.map fun (key, value) => pairLine key value)

end TreeExport.Toml

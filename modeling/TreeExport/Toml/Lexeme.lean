/-!
# The words of TOML

Blanks, comments, strings and keys.  Each reader takes the beginning of a text off and gives what
stands there together with the rest, or nothing if it does not stand there.  Lines are taken to end
with a single new line.
-/

namespace TreeExport.Toml

/-- A reader of what stands at the beginning of a text. -/
abbrev Reader (α : Type) := List Char → Option (α × List Char)

/-- A blank within a line. -/
def isBlank (c : Char) : Bool := c == ' ' || c == '\t'

/-- The text without the blanks at its beginning. -/
def skipBlanks (cs : List Char) : List Char :=
  cs.dropWhile isBlank

/-- The character is no control, or a tab. -/
def isVisible (c : Char) : Bool :=
  c == '\t' || (0x20 ≤ c.toNat && c.toNat != 0x7F)

/-- The text with every line ending that has two characters cut down to one. -/
def joinLineEnds : List Char → List Char
  | '\r' :: '\n' :: rest => '\n' :: joinLineEnds rest
  | c :: rest => c :: joinLineEnds rest
  | [] => []

/-- The rest of a line that holds nothing but blanks and perhaps a comment. -/
def endOfLine? (cs : List Char) : Option (List Char) :=
  let afterComment :=
    match skipBlanks cs with
    | '#' :: rest => rest.dropWhile isVisible
    | rest => rest
  match afterComment with
  | '\n' :: rest => some rest
  | [] => some []
  | _ => none

/-- Passes over blanks, comments and line ends within an array. -/
def skipFiller? (inComment : Bool) : List Char → Option (List Char)
  | [] => if inComment then none else some []
  | c :: rest =>
    if c = '\n' then skipFiller? false rest
    else if inComment then (if isVisible c then skipFiller? true rest else none)
    else if isBlank c then skipFiller? false rest
    else if c = '#' then skipFiller? true rest
    else some (c :: rest)

/-! ## Strings -/

/-- The value of a hexadecimal digit. -/
def hexValue? (c : Char) : Option Nat :=
  if '0' ≤ c ∧ c ≤ '9' then some (c.toNat - 48)
  else if 'a' ≤ c ∧ c ≤ 'f' then some (c.toNat - 87)
  else if 'A' ≤ c ∧ c ≤ 'F' then some (c.toNat - 55)
  else none

/-- The character with a number, unless the number is that of half a character. -/
def scalar? (n : Nat) : Option Char :=
  if n < 0xD800 ∨ (0xE000 ≤ n ∧ n < 0x110000) then some (Char.ofNat n) else none

/-- What a single character after a backslash stands for. -/
def escaped? (c : Char) : Option Char :=
  match c with
  | 'b' => some '\x08'
  | 't' => some '\t'
  | 'n' => some '\n'
  | 'f' => some '\x0c'
  | 'r' => some '\r'
  | '"' => some '"'
  | '\\' => some '\\'
  | _ => none

/-- Where a reader of a string with escapes stands. -/
inductive Quoting
  | text
  /-- A backslash has been read. -/
  | escape
  /-- `left + 1` digits of the number of a character are missing. -/
  | number (left value : Nat)
  /-- Some quotes have been read, which may be text or the end. -/
  | quotes (count : Nat)
  /-- A backslash has been read and blanks; a line end must follow. -/
  | lineEnd
  /-- Blanks and line ends are passed over. -/
  | margin
  deriving Repr, DecidableEq

/-- What the next character of a string with escapes makes of what has been read, the last
character first. -/
inductive Quoting.Next
  | reading (state : Quoting) (done : List Char)
  /-- The string has ended before this character. -/
  | ended (done : List Char)
  /-- The string ends with this character. -/
  | ending (done : List Char)

/-- A character of a string with escapes where no escape is being read. -/
def Quoting.plain? (manyLines : Bool) (done : List Char) (c : Char) : Option Quoting.Next :=
  if c = '"' then some (if manyLines then .reading (.quotes 1) done else .ending done)
  else if c = '\\' then some (.reading .escape done)
  else if isVisible c || (manyLines && c == '\n') then some (.reading .text (c :: done))
  else none

/-- The character after a backslash. -/
def Quoting.escape? (manyLines : Bool) (done : List Char) (c : Char) : Option Quoting.Next :=
  if c = 'u' then some (.reading (.number 3 0) done)
  else if c = 'U' then some (.reading (.number 7 0) done)
  else if manyLines && isBlank c then some (.reading .lineEnd done)
  else if manyLines && c == '\n' then some (.reading .margin done)
  else (escaped? c).map fun e => .reading .text (e :: done)

/-- Reads one character of a string with escapes, within one line or over many.  The end of a string
over many lines is three quotes; one or two quotes before them belong to the text. -/
def Quoting.advance? (manyLines : Bool) (done : List Char) (c : Char) :
    Quoting → Option Quoting.Next
  | .text => plain? manyLines done c
  | .escape => escape? manyLines done c
  | .number left value =>
    (hexValue? c).bind fun digit =>
      match left with
      | 0 => (scalar? (value * 16 + digit)).map fun e => .reading .text (e :: done)
      | left + 1 => some (.reading (.number left (value * 16 + digit)) done)
  | .quotes count =>
    if c = '"' then
      if count < 4 then some (.reading (.quotes (count + 1)) done)
      else some (.ending ('"' :: '"' :: done))
    else if count < 3 then plain? manyLines (List.replicate count '"' ++ done) c
    else some (.ended (List.replicate (count - 3) '"' ++ done))
  | .lineEnd =>
    if isBlank c then some (.reading .lineEnd done)
    else if c = '\n' then some (.reading .margin done)
    else none
  | .margin =>
    if isBlank c || c == '\n' then some (.reading .margin done) else plain? manyLines done c

/-- Reads the rest of a string with escapes. -/
def Quoting.run? (manyLines : Bool) (done : List Char) : Quoting → Reader String
  | .quotes count, [] =>
    if count < 3 then none
    else some (String.ofList (List.replicate (count - 3) '"' ++ done).reverse, [])
  | _, [] => none
  | state, c :: rest =>
    match state.advance? manyLines done c with
    | none => none
    | some (.reading next done) => next.run? manyLines done rest
    | some (.ended done) => some (String.ofList done.reverse, c :: rest)
    | some (.ending done) => some (String.ofList done.reverse, rest)

/-- Reads the rest of a literal string within one line. -/
def literal? : Reader String := fun cs =>
  match cs.dropWhile fun c => isVisible c && c != '\'' with
  | '\'' :: rest => some (String.ofList (cs.takeWhile fun c => isVisible c && c != '\''), rest)
  | _ => none

/-- Reads the rest of a literal string over many lines.  One or two quotes before the three at its
end belong to the text. -/
def literalLines? (done : List Char) : Reader String
  | '\'' :: '\'' :: '\'' :: '\'' :: '\'' :: rest =>
    some (String.ofList ('\'' :: '\'' :: done).reverse, rest)
  | '\'' :: '\'' :: '\'' :: '\'' :: rest => some (String.ofList ('\'' :: done).reverse, rest)
  | '\'' :: '\'' :: '\'' :: rest => some (String.ofList done.reverse, rest)
  | c :: rest =>
    if isVisible c || c == '\n' then literalLines? (c :: done) rest else none
  | [] => none

/-- The text without a line end at its beginning. -/
def skipLineEnd : List Char → List Char
  | '\n' :: rest => rest
  | rest => rest

/-- Reads a string of any kind. -/
def string? : Reader String
  | '"' :: '"' :: '"' :: rest => Quoting.run? true [] .text (skipLineEnd rest)
  | '"' :: rest => Quoting.run? false [] .text rest
  | '\'' :: '\'' :: '\'' :: rest => literalLines? [] (skipLineEnd rest)
  | '\'' :: rest => literal? rest
  | _ => none

/-! ## Keys -/

/-- The character may stand in a key without quotes. -/
def isBare (c : Char) : Bool :=
  c.isAlphanum || c == '_' || c == '-'

/-- Reads one element of a key, with the blanks around it. -/
def keyElement? : Reader String := fun cs =>
  let finish : Option (String × List Char) → Option (String × List Char) :=
    Option.map fun (name, rest) => (name, skipBlanks rest)
  match skipBlanks cs with
  | '"' :: rest => finish (Quoting.run? false [] .text rest)
  | '\'' :: rest => finish (literal? rest)
  | cs =>
    let name := cs.takeWhile isBare
    if name.isEmpty then none else finish (some (String.ofList name, cs.dropWhile isBare))

/-- The greatest number of containers around each other, and of elements of a key. -/
def maxDepth : Nat := 79

/-- Reads elements of a key with dots between them, at most so many. -/
def keyElements? : Nat → Reader (List String)
  | 0, _ => none
  | left + 1, cs => do
    let (name, rest) ← keyElement? cs
    match rest with
    | '.' :: rest => do
      let (more, rest) ← keyElements? left rest
      pure (name :: more, rest)
    | rest => pure ([name], rest)

/-- Reads a key. -/
def key? : Reader (List String) :=
  keyElements? maxDepth

end TreeExport.Toml

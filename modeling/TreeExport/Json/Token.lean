import TreeExport.Json.Written

/-!
# JSON tokens

`Token.scan` cuts a document into tokens, one character at a time through the states of
`Scanner`.  Words and numerals end where a character stands that cannot be part of them, so the
state that has read one closes it before the next character is looked at.
-/

namespace TreeExport.Json

/-- A token. -/
inductive Token
  | openArray
  | closeArray
  | openObject
  | closeObject
  | comma
  | colon
  | null
  | bool (b : Bool)
  | numeral (n : Numeral)
  | text (pieces : List Piece)
  deriving Repr, DecidableEq

/-- What has been read of the token that is being read; characters and pieces stand last one
first. -/
inductive Scanner
  | between
  | word (read : List Char)
  | numeral (read : List Char)
  | text (read : List Piece)
  /-- A backslash has been read. -/
  | escape (read : List Piece)
  /-- `left + 1` hexadecimal digits of a unit are missing. -/
  | unit (read : List Piece) (left value : Nat)
  deriving Repr, DecidableEq

namespace Scanner

/-- The character may stand in a numeral. -/
def isNumeric (c : Char) : Bool :=
  c.isDigit || c == '-' || c == '+' || c == '.' || c == 'e' || c == 'E'

/-- The word as a token. -/
def word? (read : List Char) : Option Token :=
  match read.reverse with
  | ['n', 'u', 'l', 'l'] => some .null
  | ['t', 'r', 'u', 'e'] => some (.bool true)
  | ['f', 'a', 'l', 's', 'e'] => some (.bool false)
  | _ => none

/-- The value of a hexadecimal digit. -/
def hexValue? (c : Char) : Option Nat :=
  if '0' ≤ c ∧ c ≤ '9' then some (c.toNat - 48)
  else if 'a' ≤ c ∧ c ≤ 'f' then some (c.toNat - 87)
  else if 'A' ≤ c ∧ c ≤ 'F' then some (c.toNat - 55)
  else none

/-- What a single character after a backslash stands for. -/
def escaped? (c : Char) : Option Char :=
  match c with
  | '"' => some '"'
  | '\\' => some '\\'
  | '/' => some '/'
  | 'b' => some '\x08'
  | 'f' => some '\x0c'
  | 'n' => some '\n'
  | 'r' => some '\r'
  | 't' => some '\t'
  | _ => none

/-- Reads a character between tokens: the state it leads to, and a token if it is one. -/
def opening? (c : Char) : Option (Scanner × List Token) :=
  if c = ' ' ∨ c = '\t' ∨ c = '\n' ∨ c = '\r' then some (.between, [])
  else if c = '[' then some (.between, [.openArray])
  else if c = ']' then some (.between, [.closeArray])
  else if c = '\x7b' then some (.between, [.openObject])
  else if c = '\x7d' then some (.between, [.closeObject])
  else if c = ',' then some (.between, [.comma])
  else if c = ':' then some (.between, [.colon])
  else if c = '"' then some (.text [], [])
  else if c.isDigit ∨ c = '-' then some (.numeral [c], [])
  else if c.isLower then some (.word [c], [])
  else none

/-- Reads one character: the next state and the tokens that it completes, the last one first. -/
def advance? : Scanner → Char → Option (Scanner × List Token)
  | .between, c => opening? c
  | .word read, c =>
    if c.isLower then some (.word (c :: read), [])
    else do
      let token ← word? read
      let (next, tokens) ← opening? c
      pure (next, tokens ++ [token])
  | .numeral read, c =>
    if isNumeric c then some (.numeral (c :: read), [])
    else do
      let n ← Numeral.ofChars? read.reverse
      let (next, tokens) ← opening? c
      pure (next, tokens ++ [.numeral n])
  | .text read, c =>
    if c = '"' then some (.between, [.text read.reverse])
    else if c = '\\' then some (.escape read, [])
    else if c.toNat < 0x20 then none
    else some (.text (.char c :: read), [])
  | .escape read, c =>
    if c = 'u' then some (.unit read 3 0, [])
    else (escaped? c).map fun e => (.text (.char e :: read), [])
  | .unit read left value, c =>
    (hexValue? c).map fun h =>
      match left with
      | 0 => (.text (.unit (value * 16 + h) :: read), [])
      | left + 1 => (.unit read left (value * 16 + h), [])

/-- The tokens that the end of the document completes. -/
def finish? : Scanner → Option (List Token)
  | .between => some []
  | .word read => (word? read).map ([·])
  | .numeral read => (Numeral.ofChars? read.reverse).map fun n => [.numeral n]
  | _ => none

/-- Reads on from a state; `done` holds the tokens so far, the last one first. -/
def run? (state : Scanner) (done : List Token) : List Char → Option (List Token)
  | [] => state.finish?.map fun last => (last ++ done).reverse
  | c :: rest =>
    match state.advance? c with
    | none => none
    | some (next, tokens) => run? next (tokens ++ done) rest

end Scanner

/-- The tokens of a document. -/
def Token.scan? (cs : List Char) : Option (List Token) :=
  Scanner.run? .between [] cs

end TreeExport.Json

/-!
# Regular expressions

Patterns are matched by a library for regular expressions, a `Regex.Library`, of which little is asked:
to escape a text, to compile an expression, and to say whether it is found in a text.  Little of what
such libraries understand is needed: characters, behind a backslash if they have a meaning of their
own; a dot, which is any character but a new line; a class of all characters but one; a star behind
one of these; and the marks of the start and the end of the text.  `Regex.parse` reads such
expressions, `Regex.Found` says what they mean, and `Regex.library` is a library that understands no
others.  It finds them in time proportional to the lengths of expression and text, by keeping for
every suffix of the text whether the later items match there.
-/

namespace TreeExport.Regex

/-! ## Syntax -/

/-- The characters that have a meaning of their own in an expression. -/
def metacharacters : List Char :=
  ['\\', '.', '+', '*', '?', '(', ')', '|', '[', ']', '\x7b', '\x7d', '^', '$', '#', '&', '-', '~']

/-- The character has a meaning of its own. -/
def isMeta (c : Char) : Bool :=
  metacharacters.contains c

/-- A character as an expression that is found where it stands. -/
def escapeChar (c : Char) : List Char :=
  if isMeta c then ['\\', c] else [c]

/-- A text as an expression that is found where it stands. -/
def escape (cs : List Char) : List Char :=
  cs.flatMap escapeChar

/-- What an expression allows in one place. -/
inductive CharSet
  | char (c : Char)
  /-- A dot: any character but a new line. -/
  | any
  /-- A class: any character but this one. -/
  | except (c : Char)
  deriving Repr, DecidableEq

/-- The character is allowed. -/
def CharSet.allows : CharSet → Char → Bool
  | char c, d => d == c
  | any, d => d != '\n'
  | except c, d => d != c

/-- What an expression is written with. -/
inductive Lexeme
  | start
  | stop
  | star
  | set (set : CharSet)
  deriving Repr, DecidableEq

/-- The lexemes of an expression; none if it has others. -/
def lexemes : List Char → Option (List Lexeme)
  | [] => some []
  | '^' :: rest => (lexemes rest).map (.start :: ·)
  | '$' :: rest => (lexemes rest).map (.stop :: ·)
  | '*' :: rest => (lexemes rest).map (.star :: ·)
  | '.' :: rest => (lexemes rest).map (.set .any :: ·)
  | '\\' :: c :: rest => if isMeta c then (lexemes rest).map (.set (.char c) :: ·) else none
  | '[' :: '^' :: c :: ']' :: rest =>
    if isMeta c then none else (lexemes rest).map (.set (.except c) :: ·)
  | c :: rest => if isMeta c then none else (lexemes rest).map (.set (.char c) :: ·)

/-- What an expression is made of. -/
inductive Item
  /-- The start of the text. -/
  | start
  /-- The end of the text. -/
  | stop
  /-- One character. -/
  | once (set : CharSet)
  /-- Any number of characters. -/
  | many (set : CharSet)
  deriving Repr, DecidableEq

/-- The items that lexemes make up; none if a star stands behind anything but a character. -/
def items : List Lexeme → Option (List Item)
  | [] => some []
  | .start :: rest => (items rest).map (.start :: ·)
  | .stop :: rest => (items rest).map (.stop :: ·)
  | .star :: _ => none
  | .set set :: .star :: rest => (items rest).map (.many set :: ·)
  | .set set :: rest => (items rest).map (.once set :: ·)

/-- The items of an expression. -/
def parse (expression : String) : Option (List Item) :=
  (lexemes expression.toList).bind items

/-! ## Meaning -/

/-- The item matches a piece of a text, between what stands before and behind it. -/
def Item.Covers : Item → List Char → List Char → List Char → Prop
  | start, before, piece, _ => before = [] ∧ piece = []
  | stop, _, piece, behind => piece = [] ∧ behind = []
  | once set, _, piece, _ => ∃ c, set.allows c = true ∧ piece = [c]
  | many set, _, piece, _ => ∀ c ∈ piece, set.allows c = true

/-- The items match a piece of a text one behind the other, between what stands before and behind
it. -/
inductive Matches : List Item → List Char → List Char → List Char → Prop
  | nil {before behind : List Char} : Matches [] before [] behind
  | cons {item : Item} {rest : List Item} {before piece later behind : List Char} :
    item.Covers before piece (later ++ behind) → Matches rest (before ++ piece) later behind →
      Matches (item :: rest) before (piece ++ later) behind

/-- The items match somewhere in a text. -/
def Found (items : List Item) (text : List Char) : Prop :=
  ∃ before piece behind, text = before ++ (piece ++ behind) ∧ Matches items before piece behind

/-! ## Libraries -/

/-- A library for regular expressions. -/
structure Library where
  Compiled : Type
  escape : String → String
  compile : String → Option Compiled
  isMatch : Compiled → String → Bool

/-- The library does what is documented: it puts a backslash in front of each character that has a
meaning of its own, and what it compiles is found just where its items match. -/
structure Library.IsDocumented (library : Library) : Prop where
  escape : ∀ text, library.escape text = String.ofList (Regex.escape text.toList)
  isMatch : ∀ {expression items compiled}, parse expression = some items →
    library.compile expression = some compiled →
      ∀ text, library.isMatch compiled text = true ↔ Found items text.toList

/-! ## Finding -/

/-- For each suffix of a text, the longest first, whether an item and then the later items match there;
`later` says the same of the later items alone.  `begins` says whether the longest suffix is the whole
text. -/
def Item.column (item : Item) : Bool → List Char → List Bool → List Bool
  | begins, [], later =>
    let here := later.headD false
    [match item with
      | start => begins && here
      | stop => here
      | once _ => false
      | many _ => here]
  | begins, c :: rest, later =>
    let here := later.headD false
    let below := item.column false rest (later.drop 1)
    (match item with
      | start => begins && here
      | stop => false
      | once set => set.allows c && (later.drop 1).headD false
      | many set => here || set.allows c && below.headD false) :: below

/-- For each suffix of a text, the longest first, whether the items match there. -/
def columns (text : List Char) : List Item → List Bool
  | [] => List.replicate (text.length + 1) true
  | item :: rest => item.column true text (columns text rest)

/-! ## Size

An expression is measured as an automaton over bytes.  An arbitrary character is a fork into ten
chains of states, one for each range of characters that is written alike, and a join. -/

/-- The bytes of a state. -/
def stateBytes : Nat := 32

/-- The bytes of a branch of a fork. -/
def branchBytes : Nat := 4

/-- The bytes of the states for what is allowed in one place: a chain for a single character; a fork, a
join and ten chains that hold 28 states for an arbitrary one. -/
def CharSet.size : CharSet → Nat
  | char c => c.utf8Size * stateBytes
  | _ => (2 + 28) * stateBytes + 10 * branchBytes

/-- The bytes of the states for an item. -/
def Item.size : Item → Nat
  | start => stateBytes
  | stop => stateBytes
  | once set => set.size
  | many set => set.size + stateBytes + 2 * branchBytes

/-- The bytes of the automaton for some items, which has two states besides those for them. -/
def size (items : List Item) : Nat :=
  items.foldl (fun bytes item => bytes + item.size) (2 * stateBytes)

/-- The greatest size of an automaton. -/
def maxSize : Nat := 10485760

/-- A library that understands no more than what is said here, and compiles what is not too large. -/
def library : Library where
  Compiled := List Item
  escape text := String.ofList (escape text.toList)
  compile expression := (parse expression).filter (size · ≤ maxSize)
  isMatch items text := (columns text.toList items).any id

end TreeExport.Regex

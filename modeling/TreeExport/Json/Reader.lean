import TreeExport.Json.Token

/-!
# Reading JSON

Tokens are put together into a document by a stack of the containers that are open.
`Written.ofTokens?` looks at each token once; `Json.read?` reads a text up to its end.
-/

namespace TreeExport.Json

/-- A container that is open: what it holds so far, the last one first, and for an object the
name whose value is being read. -/
inductive Frame
  | array (done : List Written)
  | object (done : List (List Piece × Written)) (name : List Piece)
  deriving Repr

/-- What may come next. -/
inductive Expecting
  /-- A value. -/
  | value
  /-- A value, or the end of the array that was just opened. -/
  | firstItem
  /-- A name, or the end of the object that was just opened. -/
  | firstName
  /-- A name, after a comma in an object with these fields. -/
  | name (done : List (List Piece × Written))
  /-- A colon after a name in an object with these fields. -/
  | colon (done : List (List Piece × Written)) (name : List Piece)
  /-- A comma, or the end of what the value stands in. -/
  | next (value : Written)
  deriving Repr

/-- The state of the reader: what may come next and the open containers, the innermost first. -/
structure Assembly where
  expecting : Expecting
  frames : List Frame
  deriving Repr

namespace Assembly

/-- The start of a document. -/
def start : Assembly := ⟨.value, []⟩

/-- Begins a value, in the place where one may stand. -/
def begin? (frames : List Frame) : Token → Option Assembly
  | .null => some ⟨.next .null, frames⟩
  | .bool b => some ⟨.next (.bool b), frames⟩
  | .numeral n => some ⟨.next (.numeral n), frames⟩
  | .text pieces => some ⟨.next (.text pieces), frames⟩
  | .openArray => some ⟨.firstItem, .array [] :: frames⟩
  | .openObject => some ⟨.firstName, frames⟩
  | _ => none

/-- Reads one token. -/
def advance? : Assembly → Token → Option Assembly
  | ⟨.value, frames⟩, token => begin? frames token
  | ⟨.firstItem, frames⟩, token =>
    match token, frames with
    | .closeArray, .array [] :: outer => some ⟨.next (.array []), outer⟩
    | _, _ => begin? frames token
  | ⟨.firstName, frames⟩, .closeObject => some ⟨.next (.object []), frames⟩
  | ⟨.firstName, frames⟩, .text name => some ⟨.colon [] name, frames⟩
  | ⟨.name done, frames⟩, .text name => some ⟨.colon done name, frames⟩
  | ⟨.colon done name, frames⟩, .colon => some ⟨.value, .object done name :: frames⟩
  | ⟨.next value, .array done :: frames⟩, .comma => some ⟨.value, .array (value :: done) :: frames⟩
  | ⟨.next value, .array done :: frames⟩, .closeArray =>
    some ⟨.next (.array (value :: done).reverse), frames⟩
  | ⟨.next value, .object done name :: frames⟩, .comma =>
    some ⟨.name ((name, value) :: done), frames⟩
  | ⟨.next value, .object done name :: frames⟩, .closeObject =>
    some ⟨.next (.object ((name, value) :: done).reverse), frames⟩
  | _, _ => none

/-- The document, if it is complete. -/
def finish? : Assembly → Option Written
  | ⟨.next value, []⟩ => some value
  | _ => none

/-- Reads tokens to their end. -/
def run? (state : Assembly) : List Token → Option Written
  | [] => state.finish?
  | token :: rest =>
    match state.advance? token with
    | none => none
    | some next => run? next rest

end Assembly

/-- The document that tokens spell. -/
def Written.ofTokens? (tokens : List Token) : Option Written :=
  Assembly.start.run? tokens

/-- The document that a text spells. -/
def Written.read? (text : String) : Option Written :=
  (Token.scan? text.toList).bind Written.ofTokens?

/-- The value of the document that a text spells. -/
def read? (text : String) : Option Json :=
  (Written.read? text).bind Written.value?

end TreeExport.Json

import TreeExport.Toml.Numeral
import TreeExport.Toml.Table

/-!
# Reading TOML

`Toml.value?` reads a value; arrays and tables within braces may stand in each other, but only so
deep, which is what its recursion runs on.  `Toml.read?` reads a document line by line.
-/

namespace TreeExport.Toml

/-- Reads the items of an array and its closing bracket; there are no more than `left`. -/
def items? (item? : Reader Toml) : Nat → Reader (List Toml)
  | 0, _ => none
  | left + 1, cs => do
    match ← skipFiller? false cs with
    | ']' :: rest => pure ([], rest)
    | cs => do
      let (item, cs) ← item? cs
      match ← skipFiller? false cs with
      | ',' :: rest => do
        let (items, rest) ← items? item? left rest
        pure (item :: items, rest)
      | ']' :: rest => pure ([item], rest)
      | _ => none

/-- Reads a key, an equals sign and a value. -/
def pair? (item? : Reader Toml) : Reader (List String × Toml) := fun cs => do
  let (path, cs) ← key? cs
  let (value, cs) ← item? (skipBlanks (← mark? '=' cs))
  pure ((path, value), cs)

/-- Reads the pairs of a table within braces and its closing brace; there are no more than
`left`. -/
def pairs? (item? : Reader Toml) : Nat → Reader (List (List String × Toml))
  | 0, _ => none
  | left + 1, cs => do
    let (pair, cs) ← pair? item? cs
    match skipBlanks cs with
    | ',' :: rest => do
      let (pairs, rest) ← pairs? item? left rest
      pure (pair :: pairs, rest)
    | '\x7d' :: rest => pure ([pair], rest)
    | _ => none

/-- Reads a table within braces, after the opening brace. -/
def braces? (item? : Reader Toml) : Reader Toml := fun cs =>
  match skipBlanks cs with
  | '\x7d' :: rest => some (.table [], rest)
  | cs => do
    let (pairs, rest) ← pairs? item? (cs.length + 1) cs
    let table ← Table.empty.addAll pairs
    pure (.table table.fieldValues, rest)

/-- Reads a value that is no container. -/
def scalarValue? : Reader Toml := fun cs =>
  match cs with
  | 't' :: 'r' :: 'u' :: 'e' :: rest => some (.boolean true, rest)
  | 'f' :: 'a' :: 'l' :: 's' :: 'e' :: rest => some (.boolean false, rest)
  | c :: _ =>
    if c = '"' ∨ c = '\'' then (string? cs).map fun (s, rest) => (.string s, rest)
    else numeral? cs
  | [] => none

/-- Reads a value in which no more than `depth` containers stand in each other. -/
def value? : Nat → Reader Toml
  | depth, cs =>
    match depth, cs with
    | 0, '[' :: _ => none
    | 0, '\x7b' :: _ => none
    | depth + 1, '[' :: rest =>
      (items? (value? depth) (rest.length + 1) rest).map fun (items, rest) => (.array items, rest)
    | depth + 1, '\x7b' :: rest => braces? (value? depth) rest
    | _, cs => scalarValue? cs

/-- Reads a header, after its first bracket, up to the end of its line. -/
def header? : Reader Header
  | '[' :: cs => do
    let (path, cs) ← key? cs
    let rest ← endOfLine? (← mark? ']' (← mark? ']' cs))
    pure (.element path, rest)
  | cs => do
    let (path, cs) ← key? cs
    let rest ← endOfLine? (← mark? ']' cs)
    pure (.table path, rest)

/-- A line that is not empty. -/
inductive Line
  | header (header : Header)
  | pair (path : List String) (value : Toml)
  deriving Repr

/-- Reads the lines of a document, of which there are no more than `left`. -/
def lines? : Nat → List Char → Option (List Line)
  | 0, _ => none
  | left + 1, cs =>
    match skipBlanks cs with
    | [] => some []
    | '#' :: rest => do lines? left (← endOfLine? ('#' :: rest))
    | '\n' :: rest => lines? left rest
    | '[' :: rest => do
      let (header, rest) ← header? rest
      pure (.header header :: (← lines? left rest))
    | cs => do
      let ((path, value), rest) ← pair? (value? maxDepth) cs
      pure (.pair path value :: (← lines? left (← endOfLine? rest)))

/-- The document that lines make up: pairs belong to the header before them. -/
def Document.ofLines : List Line → Document
  | [] => {}
  | .pair path value :: rest =>
    let document := ofLines rest
    { document with top := (path, value) :: document.top }
  | .header header :: rest =>
    let document := ofLines rest
    ⟨[], (header, document.top) :: document.sections⟩

/-- The mark that a text may begin with to show its order of bytes. -/
def byteOrderMark : Char := '\uFEFF'

/-- The fields of the document that a text is. -/
def read? (text : String) : Option (List (String × Toml)) :=
  let cs :=
    match text.toList with
    | c :: rest => if c = byteOrderMark then rest else c :: rest
    | [] => []
  let cs := joinLineEnds cs
  (lines? (cs.length + 1) cs).bind fun lines => (Document.ofLines lines).fields?

end TreeExport.Toml

import TreeExport.Decimal.Shortest
import TreeExport.Json.Value
import TreeExport.Text.Hex

/-!
# JSON as text

`Json.compact` writes a value without a blank; `Json.pretty` writes one field or item per line.
Only the quote, the backslash and the controls below U+0020 are escaped.
-/

namespace TreeExport.Json

/-- Fractions from `1e-5` up to but not including `1e16` are written in positions. -/
def fractionLayout : Decimal.Layout where
  lowest := -4
  highest := 16
  mark := "e"
  plus := "+"

/-- The text of a number. -/
def Number.render : Number → List Char
  | .whole i => (toString i).toList
  | .fraction x => x.render fractionLayout

/-- One character as it stands between quotes. -/
def escapeChar (c : Char) : List Char :=
  if c = '"' then ['\\', '"']
  else if c = '\\' then ['\\', '\\']
  else if c = '\x08' then ['\\', 'b']
  else if c = '\x0c' then ['\\', 'f']
  else if c = '\n' then ['\\', 'n']
  else if c = '\r' then ['\\', 'r']
  else if c = '\t' then ['\\', 't']
  else if c.toNat < 0x20 then
    ['\\', 'u', '0', '0', Hex.digit (c.toNat / 16), Hex.digit (c.toNat % 16)]
  else [c]

/-- A text between quotes. -/
def quote (s : String) : List Char :=
  '"' :: s.toList.flatMap escapeChar ++ ['"']

mutual

/-- The text of a value, without blanks. -/
def render : Json → List Char
  | null => ['n', 'u', 'l', 'l']
  | bool true => ['t', 'r', 'u', 'e']
  | bool false => ['f', 'a', 'l', 's', 'e']
  | number n => n.render
  | string s => quote s
  | array items => '[' :: renderItems items
  | object fields => '\x7b' :: renderFields fields

/-- The items of an array and its closing bracket. -/
def renderItems : List Json → List Char
  | [] => [']']
  | item :: rest => render item ++ renderMoreItems rest

/-- The items after the first. -/
def renderMoreItems : List Json → List Char
  | [] => [']']
  | item :: rest => ',' :: (render item ++ renderMoreItems rest)

/-- The fields of an object and its closing brace. -/
def renderFields : List (String × Json) → List Char
  | [] => ['\x7d']
  | (key, value) :: rest => quote key ++ ':' :: (render value ++ renderMoreFields rest)

/-- The fields after the first. -/
def renderMoreFields : List (String × Json) → List Char
  | [] => ['\x7d']
  | (key, value) :: rest => ',' :: (quote key ++ ':' :: (render value ++ renderMoreFields rest))

end

/-- The text of a value, without blanks. -/
def compact (value : Json) : String :=
  String.ofList (render value)

/-- A new line and the blanks before what stands at a depth. -/
def indent (depth : Nat) : List Char :=
  '\n' :: List.replicate (2 * depth) ' '

mutual

/-- The text of a value at a depth, one item or field to a line. -/
def renderPretty (depth : Nat) : Json → List Char
  | array [] => ['[', ']']
  | array (item :: rest) =>
    '[' :: (indent (depth + 1) ++ renderPretty (depth + 1) item ++ renderPrettyItems depth rest)
  | object [] => ['\x7b', '\x7d']
  | object ((key, value) :: rest) =>
    '\x7b' :: (indent (depth + 1) ++ quote key ++ ':' :: ' ' ::
      (renderPretty (depth + 1) value ++ renderPrettyFields depth rest))
  | null => ['n', 'u', 'l', 'l']
  | bool true => ['t', 'r', 'u', 'e']
  | bool false => ['f', 'a', 'l', 's', 'e']
  | number n => n.render
  | string s => quote s

/-- The items after the first and the closing bracket. -/
def renderPrettyItems (depth : Nat) : List Json → List Char
  | [] => indent depth ++ [']']
  | item :: rest =>
    ',' :: (indent (depth + 1) ++ renderPretty (depth + 1) item ++ renderPrettyItems depth rest)

/-- The fields after the first and the closing brace. -/
def renderPrettyFields (depth : Nat) : List (String × Json) → List Char
  | [] => indent depth ++ ['\x7d']
  | (key, value) :: rest =>
    ',' :: (indent (depth + 1) ++ quote key ++ ':' :: ' ' ::
      (renderPretty (depth + 1) value ++ renderPrettyFields depth rest))

end

/-- The text of a value, one item or field to a line. -/
def pretty (value : Json) : String :=
  String.ofList (renderPretty 0 value)

end TreeExport.Json

import TreeExport.Json.Numeral

/-!
# JSON as written

A `Written` document keeps what its meaning leaves out: the order and the repetition of fields,
the digits of numbers, the halves of characters written by their UTF-16 units.  `Written.value?`
is its meaning, a `Json`.
-/

namespace TreeExport.Json

/-- A piece of a written text: a character, or a UTF-16 unit given by its number. -/
inductive Piece
  | char (c : Char)
  | unit (n : Nat)
  deriving Repr, DecidableEq

/-- The characters that pieces stand for.  The two halves of a character must follow each
other. -/
def Piece.join? : List Piece → Option (List Char)
  | [] => some []
  | .char c :: rest => (join? rest).map (c :: ·)
  | .unit high :: .unit low :: rest =>
    if 0xD800 ≤ high ∧ high < 0xDC00 then
      if 0xDC00 ≤ low ∧ low < 0xE000 then
        (join? rest).map (Char.ofNat (0x10000 + (high - 0xD800) * 0x400 + (low - 0xDC00)) :: ·)
      else none
    else if 0xDC00 ≤ high ∧ high < 0xE000 then none
    else (join? (.unit low :: rest)).map (Char.ofNat high :: ·)
  | .unit n :: rest =>
    if 0xD800 ≤ n ∧ n < 0xE000 then none else (join? rest).map (Char.ofNat n :: ·)

/-- A written text as a string. -/
def Piece.text? (pieces : List Piece) : Option String :=
  (Piece.join? pieces).map String.ofList

/-- A document as it is written. -/
inductive Written
  | null
  | bool (b : Bool)
  | numeral (n : Numeral)
  | text (pieces : List Piece)
  | array (items : List Written)
  | object (fields : List (List Piece × Written))
  deriving Repr, Inhabited

/-- The greatest number of containers around each other. -/
def maxDepth : Nat := 127

namespace Written

mutual

/-- The meaning of a document with `depth` containers around it.  Of several fields with one name
the last one counts. -/
def valueAt? (depth : Nat) : Written → Option Json
  | null => some .null
  | bool b => some (.bool b)
  | numeral n => n.value?.map .number
  | text pieces => (Piece.text? pieces).map .string
  | array items => if maxDepth ≤ depth then none else (itemsAt? (depth + 1) items).map .array
  | object fields =>
    if maxDepth ≤ depth then none
    else (fieldsAt? (depth + 1) fields).map (fun pairs => .object (Keyed.ofList pairs))

/-- The meanings of the items of an array. -/
def itemsAt? (depth : Nat) : List Written → Option (List Json)
  | [] => some []
  | item :: rest => do
    let value ← valueAt? depth item
    let values ← itemsAt? depth rest
    pure (value :: values)

/-- The meanings of the fields of an object, in written order. -/
def fieldsAt? (depth : Nat) : List (List Piece × Written) → Option (List (String × Json))
  | [] => some []
  | (name, item) :: rest => do
    let key ← Piece.text? name
    let value ← valueAt? depth item
    let values ← fieldsAt? depth rest
    pure ((key, value) :: values)

end

/-- The meaning of a document. -/
def value? (document : Written) : Option Json :=
  document.valueAt? 0

end Written

end TreeExport.Json

import TreeExport.Proofs.Json.Documents
import TreeExport.Proofs.Json.Scalars

/-!
# Values are read back as they are written

`Json.written` is the document that a value is written as.  If all numbers in the value are whole, both
of its texts, the one without blanks and the one of a line per field, are read as that document
(`Written.read?_compact`, `Written.read?_pretty`).
-/

namespace TreeExport.Json

/-- All numbers in the value are whole. -/
inductive IsWhole : Json → Prop
  | null : IsWhole .null
  | bool (b : Bool) : IsWhole (.bool b)
  | number (i : Int) : IsWhole (.number (.whole i))
  | string (s : String) : IsWhole (.string s)
  | array {items : List Json} (all : ∀ item ∈ items, IsWhole item) : IsWhole (.array items)
  | object {fields : List (String × Json)} (all : ∀ field ∈ fields, IsWhole field.2) :
    IsWhole (.object fields)

/-- The numeral that a number is written as. -/
def Number.numeral (n : Number) : Numeral :=
  (Numeral.ofChars? n.render).getD (.ofInt 0)

theorem Number.numeral_whole (i : Int) : (Number.whole i).numeral = .ofInt i := by
  rw [numeral, Numeral.ofChars?_render]
  rfl

mutual

/-- The document that a value is written as. -/
def written : Json → Written
  | null => .null
  | bool b => .bool b
  | number n => .numeral n.numeral
  | string s => .text (Piece.ofText s)
  | array items => .array (writtenItems items)
  | object fields => .object (writtenFields fields)

/-- The items of an array as they are written. -/
def writtenItems : List Json → List Written
  | [] => []
  | item :: rest => written item :: writtenItems rest

/-- The fields of an object as they are written. -/
def writtenFields : List (String × Json) → List (List Piece × Written)
  | [] => []
  | (name, value) :: rest => (Piece.ofText name, written value) :: writtenFields rest

end

theorem writtenFields_eq_map (fields : List (String × Json)) :
    writtenFields fields = fields.map fun field => (Piece.ofText field.1, field.2.written) := by
  induction fields with
  | nil => rfl
  | cons field fields ih =>
    rw [List.map_cons, ← ih]
    rfl

namespace Scanner

/-! ## What texts are scanned as -/

theorem ends_cons {c : Char} (numeric : isNumeric c = false) (lower : c.isLower = false)
    (rest : List Char) : Ends (c :: rest) := by
  intro d first
  cases first
  exact ⟨numeric, lower⟩

/-- The text is scanned as the tokens, up to what follows it. -/
def Spells (text : List Char) (tokens : List Token) : Prop :=
  ∀ done rest, Ends rest →
    run? .between done (text ++ rest) = run? .between (tokens.reverse ++ done) rest

variable {text more : List Char} {tokens others : List Token}

/-- A character that is a token stands before the text. -/
theorem Spells.token (c : Char) (token : Token) (opens : opening? c = some (.between, [token]))
    (spells : Spells text tokens) : Spells (c :: text) (token :: tokens) := by
  intro done rest ends
  rw [List.cons_append, run?, show advance? .between c = opening? c from rfl, opens]
  dsimp only
  rw [spells _ rest ends, List.reverse_cons, List.append_assoc]

/-- A blank stands before the text. -/
theorem Spells.blank (c : Char) (opens : opening? c = some (.between, []))
    (spells : Spells text tokens) : Spells (c :: text) tokens := by
  intro done rest ends
  rw [List.cons_append, run?, show advance? .between c = opening? c from rfl, opens]
  exact spells done rest ends

/-- One text stands behind the other, and does not go on with its last token. -/
theorem Spells.append (spells : Spells text tokens) (behind : Spells more others)
    (breaks : ∀ rest, Ends (more ++ rest)) : Spells (text ++ more) (tokens ++ others) := by
  intro done rest ends
  rw [List.append_assoc, spells done _ (breaks rest), behind _ rest ends, List.reverse_append,
    List.append_assoc]

theorem spells_nil : Spells [] [] :=
  fun _ _ _ => rfl

theorem spells_closeArray : Spells [']'] [.closeArray] :=
  .token ']' .closeArray rfl spells_nil

theorem spells_closeObject : Spells ['\x7d'] [.closeObject] :=
  .token '\x7d' .closeObject rfl spells_nil

theorem spells_quote (s : String) : Spells (quote s) [.text (Piece.ofText s)] :=
  fun done rest _ => run?_quote done rest s

/-- A name and a colon stand before the value of a field. -/
theorem Spells.value {name : List Char} {pieces : List Piece} (named : Spells name [.text pieces])
    (spells : Spells text tokens) :
    Spells (name ++ ':' :: text) (.text pieces :: .colon :: tokens) :=
  named.append (.token ':' .colon rfl spells) fun _ => ends_cons rfl rfl _

theorem spells_number {n : Number} (whole : IsWhole (.number n)) :
    Spells n.render [.numeral n.numeral] := by
  intro done rest ends
  cases whole with
  | number i =>
    rw [Number.numeral_whole]
    exact run?_whole done i ends

theorem spells_null : Spells (render .null) [.null] := by
  intro done rest ends
  have word : word? ['l', 'l', 'u', 'n'] = some .null := rfl
  exact run?_word done word ends

theorem spells_bool (b : Bool) : Spells (render (.bool b)) [.bool b] := by
  intro done rest ends
  cases b with
  | true =>
    have word : word? ['e', 'u', 'r', 't'] = some (.bool true) := rfl
    exact run?_word done word ends
  | false =>
    have word : word? ['e', 's', 'l', 'a', 'f'] = some (.bool false) := rfl
    exact run?_word done word ends

/-! ## Without blanks -/

theorem ends_moreItems (items : List Json) (rest : List Char) :
    Ends (renderMoreItems items ++ rest) := by
  cases items <;> exact ends_cons rfl rfl _

theorem ends_moreFields (fields : List (String × Json)) (rest : List Char) :
    Ends (renderMoreFields fields ++ rest) := by
  rcases fields with _ | ⟨⟨name, value⟩, fields⟩ <;> exact ends_cons rfl rfl _

mutual

/-- The text of a value is scanned as the tokens of what it is written as. -/
theorem spells_render (value : Json) (whole : value.IsWhole) :
    Spells (render value) value.written.tokens := by
  cases value with
  | null => exact spells_null
  | bool b => exact spells_bool b
  | number n => exact spells_number whole
  | string s => exact spells_quote s
  | array items =>
    cases whole with
    | array all =>
      cases items with
      | nil => exact .token '[' .openArray rfl spells_closeArray
      | cons item items =>
        have first := spells_render item (all item List.mem_cons_self)
        have more := spells_moreItems items fun other member =>
          all other (List.mem_cons_of_mem item member)
        exact .token '[' .openArray rfl (first.append more (ends_moreItems items))
  | object fields =>
    cases whole with
    | object all =>
      cases fields with
      | nil => exact .token '\x7b' .openObject rfl spells_closeObject
      | cons field fields =>
        rcases field with ⟨name, value⟩
        have first := spells_render value (all (name, value) List.mem_cons_self)
        have more := spells_moreFields fields fun other member =>
          all other (List.mem_cons_of_mem _ member)
        have inner := (spells_quote name).value (first.append more (ends_moreFields fields))
        exact .token '\x7b' .openObject rfl inner

/-- The items after the first are scanned up to the closing bracket. -/
theorem spells_moreItems (items : List Json) (whole : ∀ item ∈ items, item.IsWhole) :
    Spells (renderMoreItems items) (Written.moreItemTokens (writtenItems items)) := by
  cases items with
  | nil => exact spells_closeArray
  | cons item items =>
    have first := spells_render item (whole item List.mem_cons_self)
    have more := spells_moreItems items fun other member =>
      whole other (List.mem_cons_of_mem item member)
    exact .token ',' .comma rfl (first.append more (ends_moreItems items))

/-- The fields after the first are scanned up to the closing brace. -/
theorem spells_moreFields (fields : List (String × Json))
    (whole : ∀ field ∈ fields, field.2.IsWhole) :
    Spells (renderMoreFields fields) (Written.moreFieldTokens (writtenFields fields)) := by
  cases fields with
  | nil => exact spells_closeObject
  | cons field fields =>
    rcases field with ⟨name, value⟩
    have first := spells_render value (whole (name, value) List.mem_cons_self)
    have more := spells_moreFields fields fun other member =>
      whole other (List.mem_cons_of_mem _ member)
    have inner := (spells_quote name).value (first.append more (ends_moreFields fields))
    exact .token ',' .comma rfl inner

end

/-! ## One line per field -/

/-- A new line and the blanks on it are no token. -/
theorem Spells.indent (depth : Nat) (spells : Spells text tokens) :
    Spells (indent depth ++ text) tokens := by
  have blanks (n : Nat) : Spells (List.replicate n ' ' ++ text) tokens := by
    induction n with
    | zero => exact spells
    | succ n ih => exact .blank ' ' rfl ih
  exact .blank '\n' rfl (blanks (2 * depth))

theorem ends_prettyItems (depth : Nat) (items : List Json) (rest : List Char) :
    Ends (renderPrettyItems depth items ++ rest) := by
  cases items <;> exact ends_cons rfl rfl _

theorem ends_prettyFields (depth : Nat) (fields : List (String × Json)) (rest : List Char) :
    Ends (renderPrettyFields depth fields ++ rest) := by
  rcases fields with _ | ⟨⟨name, value⟩, fields⟩ <;> exact ends_cons rfl rfl _

mutual

/-- The text of a value at any depth is scanned as the tokens of what it is written as. -/
theorem spells_pretty (depth : Nat) (value : Json) (whole : value.IsWhole) :
    Spells (renderPretty depth value) value.written.tokens := by
  cases value with
  | null => exact spells_null
  | bool b =>
    cases b with
    | true => exact spells_bool true
    | false => exact spells_bool false
  | number n => exact spells_number whole
  | string s => exact spells_quote s
  | array items =>
    cases whole with
    | array all =>
      cases items with
      | nil => exact .token '[' .openArray rfl spells_closeArray
      | cons item items =>
        have first := spells_pretty (depth + 1) item (all item List.mem_cons_self)
        have more := spells_prettyItems depth items fun other member =>
          all other (List.mem_cons_of_mem item member)
        have inner := (first.indent (depth + 1)).append more (ends_prettyItems depth items)
        exact .token '[' .openArray rfl inner
  | object fields =>
    cases whole with
    | object all =>
      cases fields with
      | nil => exact .token '\x7b' .openObject rfl spells_closeObject
      | cons field fields =>
        rcases field with ⟨name, value⟩
        have first := spells_pretty (depth + 1) value (all (name, value) List.mem_cons_self)
        have more := spells_prettyFields depth fields fun other member =>
          all other (List.mem_cons_of_mem _ member)
        have named := (spells_quote name).indent (depth + 1)
        have spaced := (first.append more (ends_prettyFields depth fields)).blank ' ' rfl
        exact .token '\x7b' .openObject rfl (named.value spaced)

theorem spells_prettyItems (depth : Nat) (items : List Json)
    (whole : ∀ item ∈ items, item.IsWhole) :
    Spells (renderPrettyItems depth items) (Written.moreItemTokens (writtenItems items)) := by
  cases items with
  | nil => exact spells_closeArray.indent depth
  | cons item items =>
    have first := spells_pretty (depth + 1) item (whole item List.mem_cons_self)
    have more := spells_prettyItems depth items fun other member =>
      whole other (List.mem_cons_of_mem item member)
    have inner := (first.indent (depth + 1)).append more (ends_prettyItems depth items)
    exact .token ',' .comma rfl inner

theorem spells_prettyFields (depth : Nat) (fields : List (String × Json))
    (whole : ∀ field ∈ fields, field.2.IsWhole) :
    Spells (renderPrettyFields depth fields) (Written.moreFieldTokens (writtenFields fields)) := by
  cases fields with
  | nil => exact spells_closeObject.indent depth
  | cons field fields =>
    rcases field with ⟨name, value⟩
    have first := spells_pretty (depth + 1) value (whole (name, value) List.mem_cons_self)
    have more := spells_prettyFields depth fields fun other member =>
      whole other (List.mem_cons_of_mem _ member)
    have named := (spells_quote name).indent (depth + 1)
    have spaced := (first.append more (ends_prettyFields depth fields)).blank ' ' rfl
    exact .token ',' .comma rfl (named.value spaced)

end

end Scanner

/-! ## Reading -/

/-- A text that is scanned as the tokens of a document is read as it. -/
theorem Written.read?_of_spells {text : List Char} {document : Written}
    (spells : Scanner.Spells text document.tokens) :
    Written.read? (String.ofList text) = some document := by
  have scanned := spells [] [] nofun
  rw [List.append_nil, List.append_nil] at scanned
  have tokens : Token.scan? text = some document.tokens := by
    rw [Token.scan?, scanned, Scanner.run?, Scanner.finish?, Option.map_some, List.nil_append,
      List.reverse_reverse]
  rw [Written.read?, String.toList_ofList, tokens, Option.bind_some, Written.ofTokens?_tokens]

/-- A value is read from its text without blanks as it was written. -/
theorem Written.read?_compact {value : Json} (whole : value.IsWhole) :
    Written.read? value.compact = some value.written :=
  Written.read?_of_spells (Scanner.spells_render value whole)

/-- A value is read from its lines as it was written. -/
theorem Written.read?_pretty {value : Json} (whole : value.IsWhole) :
    Written.read? value.pretty = some value.written :=
  Written.read?_of_spells (Scanner.spells_pretty 0 value whole)

end TreeExport.Json

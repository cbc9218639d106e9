import TreeExport.Json.Reader

/-!
# Documents and their tokens

`Written.tokens` spells a document.  `Written.ofTokens?_tokens`: whatever the document is, its tokens
are put together into it again.
-/

namespace TreeExport.Json

namespace Written

mutual

/-- The tokens that a document is spelled with. -/
def tokens : Written → List Token
  | null => [.null]
  | bool b => [.bool b]
  | numeral n => [.numeral n]
  | text pieces => [.text pieces]
  | array items => .openArray :: itemTokens items
  | object fields => .openObject :: fieldTokens fields

/-- The items of an array and its end. -/
def itemTokens : List Written → List Token
  | [] => [.closeArray]
  | item :: rest => tokens item ++ moreItemTokens rest

/-- The items after the first. -/
def moreItemTokens : List Written → List Token
  | [] => [.closeArray]
  | item :: rest => .comma :: (tokens item ++ moreItemTokens rest)

/-- The fields of an object and its end. -/
def fieldTokens : List (List Piece × Written) → List Token
  | [] => [.closeObject]
  | (name, item) :: rest => .text name :: .colon :: (tokens item ++ moreFieldTokens rest)

/-- The fields after the first. -/
def moreFieldTokens : List (List Piece × Written) → List Token
  | [] => [.closeObject]
  | (name, item) :: rest =>
    .comma :: .text name :: .colon :: (tokens item ++ moreFieldTokens rest)

end

end Written

namespace Assembly

/-- The first item begins like any other value: no document begins with the end of an array. -/
theorem run?_firstItem (item : Written) (frames : List Frame) (rest : List Token) :
    run? ⟨.firstItem, frames⟩ (item.tokens ++ rest) = run? ⟨.value, frames⟩ (item.tokens ++ rest) := by
  cases item <;> rfl

mutual

/-- Where a value may stand, the tokens of a document are put together into it. -/
theorem run?_tokens (document : Written) (frames : List Frame) (rest : List Token) :
    run? ⟨.value, frames⟩ (document.tokens ++ rest) = run? ⟨.next document, frames⟩ rest := by
  cases document with
  | null | bool | numeral | text => rfl
  | array items =>
    cases items with
    | nil => rfl
    | cons item items =>
      change run? ⟨.firstItem, .array [] :: frames⟩
        (item.tokens ++ Written.moreItemTokens items ++ rest) = _
      rw [List.append_assoc, run?_firstItem, run?_tokens item, run?_moreItemTokens items]
      rfl
  | object fields =>
    cases fields with
    | nil => rfl
    | cons field fields =>
      rcases field with ⟨name, item⟩
      change run? ⟨.value, .object [] name :: frames⟩
        (item.tokens ++ Written.moreFieldTokens fields ++ rest) = _
      rw [List.append_assoc, run?_tokens item, run?_moreFieldTokens fields]
      rfl

/-- The items after a value are put behind it. -/
theorem run?_moreItemTokens (items : List Written) (value : Written) (done : List Written)
    (frames : List Frame) (rest : List Token) :
    run? ⟨.next value, .array done :: frames⟩ (Written.moreItemTokens items ++ rest) =
      run? ⟨.next (.array ((value :: done).reverse ++ items)), frames⟩ rest := by
  cases items with
  | nil =>
    rw [List.append_nil]
    rfl
  | cons item items =>
    change run? ⟨.value, .array (value :: done) :: frames⟩
      (item.tokens ++ Written.moreItemTokens items ++ rest) = _
    rw [List.append_assoc, run?_tokens item, run?_moreItemTokens items, List.reverse_cons,
      List.append_assoc]
    rfl

/-- The fields after a value are put behind it. -/
theorem run?_moreFieldTokens (fields : List (List Piece × Written)) (value : Written)
    (done : List (List Piece × Written)) (name : List Piece) (frames : List Frame)
    (rest : List Token) :
    run? ⟨.next value, .object done name :: frames⟩ (Written.moreFieldTokens fields ++ rest) =
      run? ⟨.next (.object (((name, value) :: done).reverse ++ fields)), frames⟩ rest := by
  cases fields with
  | nil =>
    rw [List.append_nil]
    rfl
  | cons field fields =>
    rcases field with ⟨next, item⟩
    change run? ⟨.value, .object ((name, value) :: done) next :: frames⟩
      (item.tokens ++ Written.moreFieldTokens fields ++ rest) = _
    rw [List.append_assoc, run?_tokens item, run?_moreFieldTokens fields, List.reverse_cons,
      List.append_assoc]
    rfl

end

end Assembly

/-- The tokens of a document spell it. -/
theorem Written.ofTokens?_tokens (document : Written) :
    Written.ofTokens? document.tokens = some document := by
  have run := Assembly.run?_tokens document [] []
  rw [List.append_nil] at run
  exact run

end TreeExport.Json

/-!
# Replacing a text

All places where one text stands in another are replaced by a third.  They are looked for from left
to right and do not overlap, and what has been put in is not looked through.
-/

namespace TreeExport.Text

/-- Goes on replacing behind so many characters, which belong to a place that has been replaced. -/
def replaceFrom (old new : List Char) : Nat → List Char → List Char
  | _, [] => []
  | passed + 1, _ :: rest => replaceFrom old new passed rest
  | 0, c :: rest =>
    if old.isPrefixOf (c :: rest) then new ++ replaceFrom old new (old.length - 1) rest
    else c :: replaceFrom old new 0 rest

/-- Replaces a text that is not empty wherever it stands. -/
def replaceAll (old new cs : List Char) : List Char :=
  replaceFrom old new 0 cs

variable {old new : List Char}

@[simp] theorem replaceAll_nil : replaceAll old new [] = [] := rfl

theorem replaceFrom_append (passed rest : List Char) :
    replaceFrom old new passed.length (passed ++ rest) = replaceAll old new rest := by
  induction passed with
  | nil => rfl
  | cons c passed ih => exact ih

/-- A place in front is replaced. -/
theorem replaceAll_append {first : Char} {more : List Char} (rest : List Char) :
    replaceAll (first :: more) new (first :: more ++ rest) =
      new ++ replaceAll (first :: more) new rest := by
  have found : (first :: more).isPrefixOf (first :: (more ++ rest)) = true :=
    List.isPrefixOf_iff_prefix.mpr (List.prefix_append _ _)
  rw [List.cons_append, replaceAll, replaceFrom, if_pos found]
  exact congrArg (new ++ ·) (replaceFrom_append more rest)

/-- A character at which no place begins stays. -/
theorem replaceAll_cons {c : Char} {rest : List Char} (other : ¬ old <+: c :: rest) :
    replaceAll old new (c :: rest) = c :: replaceAll old new rest := by
  rw [replaceAll, replaceFrom, if_neg (fun found => other (List.isPrefixOf_iff_prefix.mp found))]
  rfl

end TreeExport.Text

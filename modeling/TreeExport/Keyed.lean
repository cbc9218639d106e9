/-!
# Values under keys, in key order

A list of keyed values that is kept in strictly increasing order of its keys, which for strings
is the order of their UTF-8 bytes.  Reports, field maps and histograms are such lists, because
the order of their keys shows in what is written.
-/

namespace TreeExport.Keyed

variable {α : Type}

/-- Puts a value under a key, in place of the value that the key had. -/
def insert (key : String) (value : α) : List (String × α) → List (String × α)
  | [] => [(key, value)]
  | (k, v) :: rest =>
    if key < k then (key, value) :: (k, v) :: rest
    else if key = k then (key, value) :: rest
    else (k, v) :: insert key value rest

/-- The value under a key. -/
def find? (key : String) : List (String × α) → Option α
  | [] => none
  | (k, v) :: rest => if key = k then some v else find? key rest

/-- The pairs in key order; of two values for one key the later one stays. -/
def ofList (pairs : List (String × α)) : List (String × α) :=
  pairs.foldl (fun sorted pair => insert pair.1 pair.2 sorted) []

theorem find?_insert_self (key : String) (value : α) (pairs : List (String × α)) :
    find? key (insert key value pairs) = some value := by
  induction pairs with
  | nil => simp [insert, find?]
  | cons pair rest ih =>
    obtain ⟨k, v⟩ := pair
    by_cases below : key < k
    · simp [insert, below, find?]
    · by_cases same : key = k
      · simp [insert, same, find?]
      · simp [insert, below, same, find?, ih]

theorem find?_insert_of_ne {key other : String} (different : other ≠ key) (value : α)
    (pairs : List (String × α)) : find? other (insert key value pairs) = find? other pairs := by
  induction pairs with
  | nil => simp [insert, find?, different]
  | cons pair rest ih =>
    obtain ⟨k, v⟩ := pair
    by_cases below : key < k
    · simp [insert, below, find?, different]
    · by_cases same : key = k
      · subst same
        simp [insert, find?, different]
      · simp [insert, below, same, find?, ih]

end TreeExport.Keyed

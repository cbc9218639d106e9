/-!
# Totals

The total of numbers, by which sizes of parts are counted together.
-/

namespace TreeExport

/-- The sum of numbers. -/
def total : List Nat → Nat
  | [] => 0
  | n :: rest => n + total rest

@[simp] theorem total_nil : total [] = 0 := rfl

@[simp] theorem total_cons (n : Nat) (rest : List Nat) : total (n :: rest) = n + total rest := rfl

@[simp] theorem total_append (front back : List Nat) :
    total (front ++ back) = total front + total back := by
  induction front with
  | nil => simp
  | cons n front ih => simp [ih, Nat.add_assoc]

end TreeExport

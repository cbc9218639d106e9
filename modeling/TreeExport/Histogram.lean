import TreeExport.Keyed

/-!
# Bounded histograms

A histogram counts keys, but keeps no more than a number of them: a new key for which there is no
place is dropped, and the histogram says that it overflowed.  Counts of keys that were kept go on
being exact as long as it does not say so.
-/

namespace TreeExport

/-- Counts by key. -/
structure Histogram where
  name : String
  maxKeys : Nat := 1000
  counts : List (String × Nat) := []
  overflowed : Bool := false
  deriving Repr, DecidableEq

namespace Histogram

/-- Counts a key a number of times. -/
def addCount (histogram : Histogram) (key : String) (count : Nat) : Histogram :=
  match Keyed.find? key histogram.counts with
  | some old => { histogram with counts := Keyed.insert key (old + count) histogram.counts }
  | none =>
    if histogram.counts.length < histogram.maxKeys then
      { histogram with counts := Keyed.insert key count histogram.counts }
    else { histogram with overflowed := true }

/-- Counts a key once. -/
def add (histogram : Histogram) (key : String) : Histogram :=
  histogram.addCount key 1

/-- The count of a key. -/
def get (histogram : Histogram) (key : String) : Nat :=
  (Keyed.find? key histogram.counts).getD 0

/-- No key is counted. -/
def isEmpty (histogram : Histogram) : Bool :=
  histogram.counts.isEmpty

/-- Takes up counts in a given order, and that counts were dropped before. -/
def absorb (histogram : Histogram) (counts : List (String × Nat)) (overflowed : Bool) :
    Histogram :=
  let filled := counts.foldl (fun h entry => h.addCount entry.1 entry.2) histogram
  { filled with overflowed := filled.overflowed || overflowed }

/-- Takes up all that another histogram counted. -/
def merge (histogram other : Histogram) : Histogram :=
  histogram.absorb other.counts other.overflowed

/-- Greater counts come first, equal ones in key order. -/
def before (a b : String × Nat) : Bool :=
  b.2 < a.2 || (a.2 == b.2 && a.1 ≤ b.1)

/-- The entries with the greatest counts, at most `n`. -/
def top (histogram : Histogram) (n : Nat) : List (String × Nat) :=
  (histogram.counts.mergeSort before).take n

/-- The histogram on one line. -/
def render (histogram : Histogram) : String :=
  let entries := (histogram.top histogram.counts.length).map fun (key, count) => s!"{key}: {count}"
  s!"{histogram.name}: [" ++ ", ".intercalate entries ++ "]" ++
    (if histogram.overflowed then " (truncated)" else "")

end Histogram

end TreeExport

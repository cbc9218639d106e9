/-!
# Padded numbers

Numbers of a least width, as they stand in dates and in the names of files, so that the order of
the texts is that of the numbers.
-/

namespace TreeExport.Decimal

/-- A number with zeros in front, up to a width. -/
def padded (width n : Nat) : String :=
  let digits := toString n
  String.ofList (List.replicate (width - digits.length) '0') ++ digits

end TreeExport.Decimal

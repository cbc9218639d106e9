import TreeExport.Source.JsonLines
import TreeExport.Source.Predefined
import TreeExport.Total

/-!
# Sources of records

A source answers requests with batches until it answers with none.  `RecordSource` is all that a
dump asks of one; `Source` is either kind that the library has.
-/

namespace TreeExport

/-- What can answer requests for records. -/
class RecordSource (σ : Type) where
  /-- The answer to a request, and the source after it. -/
  next : BatchRequest → σ → Except Error (Option RecordBatch) × σ
  /-- A name for messages. -/
  describe : σ → String
  /-- A bound on the records and batches to come. -/
  weight : σ → Nat

/-- A source of either kind. -/
inductive Source
  | jsonLines (source : JsonLines)
  | predefined (source : Predefined)

namespace Source

/-- The next batch, or none at the end. -/
def next (request : BatchRequest) : Source → Except Error (Option RecordBatch) × Source
  | jsonLines source =>
    let (answer, source) := source.next request
    (answer, jsonLines source)
  | predefined source =>
    let (answer, source) := source.next request
    (answer, predefined source)

/-- A name for messages. -/
def describe : Source → String
  | jsonLines source => source.describe
  | predefined source => source.describe

/-- The number of lines to come, or of lists and their records. -/
def weight : Source → Nat
  | jsonLines source => (source.lines.toOption.map List.length).getD 0 + 1
  | predefined source => total (source.lists.map (·.length + 1)) + 1

end Source

instance : RecordSource Source where
  next := Source.next
  describe := Source.describe
  weight := Source.weight

end TreeExport

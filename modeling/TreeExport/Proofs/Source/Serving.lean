import TreeExport.Proofs.Source.JsonLines
import TreeExport.Proofs.Source.Predefined

/-!
# What a source hands out

Either kind of source serves a request from the lists of records that it has left
(`Source.serves`).  `Source.Holds` says which lists an export or a source of lists holds to begin
with; all that a request lets through of them is handed out, in batches that only its bounds shape
(`Source.Holds.hands_out`).
-/

namespace TreeExport

open RecordSource

namespace JsonLines

/-- Every line is blank or holds a record.  A record comes with the size of its line without the
blanks around it. -/
inductive Hold : List Bytes → List SizedRecord → Prop
  | nil : Hold [] []
  | blank {bytes : Bytes} {text : String} {rest : List Bytes} {records : List SizedRecord}
      (decoded : Utf8.decode bytes = .ok text) (isBlank : Text.trim text = "")
      (later : Hold rest records) : Hold (bytes :: rest) records
  | record {bytes : Bytes} {text : String} {record : Record} {rest : List Bytes}
      {records : List SizedRecord} (decoded : Utf8.decode bytes = .ok text)
      (some : Text.trim text ≠ "") (read : Record.read? (Text.trim text) = .some record)
      (later : Hold rest records) :
      Hold (bytes :: rest) ((record, Utf8.size (Text.trim text)) :: records)

theorem Hold.held_eq {lines : List Bytes} {records : List SizedRecord} (hold : Hold lines records) :
    held lines = records ∧ AreSound lines := by
  induction hold with
  | nil => exact ⟨rfl, areSound_nil⟩
  | @blank bytes text rest records decoded isBlank _ ih =>
    have line : Line.ofBytes bytes = .blank := by
      simp only [Line.ofBytes, decoded, isBlank, String.isEmpty_iff, if_true]
    rw [held, areSound_cons, line]
    exact ⟨ih.1, trivial, ih.2⟩
  | @record bytes text record rest records decoded some read _ ih =>
    have line : Line.ofBytes bytes = .holding record (Utf8.size (Text.trim text)) := by
      simp only [Line.ofBytes, decoded, String.isEmpty_iff, some, if_false, read]
    rw [held, areSound_cons, line]
    exact ⟨congrArg (List.cons _) ih.1, trivial, ih.2⟩

end JsonLines

namespace Source

/-- The lists of records that a source has left, up to the first line that is none. -/
def left : Source → List (List SizedRecord)
  | jsonLines source => [source.left]
  | predefined source => source.left

/-- The source does not fail before its end. -/
def IsWhole : Source → Prop
  | jsonLines source => source.IsWhole
  | predefined source => source.failure = none

variable {request : BatchRequest} {source : Source} {lists : List (List SizedRecord)}

/-- Whatever a source of either kind answers, it answers from what it has left. -/
theorem serves (positive : 0 < request.maxDocuments) : Serves request left IsWhole := by
  intro source
  cases source with
  | jsonLines source => exact JsonLines.answers_next positive source
  | predefined source => exact Predefined.answers_next positive source

/-- An export whose lines are all blank or hold a record, or a source of lists that is not made to
fail, and the records that it holds.  Those of an export make a single list. -/
inductive Holds : Source → List (List SizedRecord) → Prop
  | jsonLines (path : String) {content : Bytes} {records : List SizedRecord}
      (hold : JsonLines.Hold (JsonLines.splitLines [] content) records) :
      Holds (.jsonLines (.ofBytes path content)) [records]
  | predefined (lists : List (List Record)) :
      Holds (.predefined { lists := lists })
        (lists.map fun records => records.map fun record => (record, record.approximateSize))

theorem Holds.left_eq (holds : source.Holds lists) : source.left = lists := by
  cases holds with
  | jsonLines path hold => exact congrArg (fun records => [records]) hold.held_eq.1
  | predefined => rfl

theorem Holds.isWhole (holds : source.Holds lists) : source.IsWhole := by
  cases holds with
  | jsonLines path hold => exact ⟨_, rfl, hold.held_eq.2⟩
  | predefined => rfl

end Source

namespace BatchRequest

variable {request other : BatchRequest} {lists : List (List SizedRecord)}

/-- Requests with the same filters let the same records through. -/
theorem acceptsRecord_congr (same : other.filters = request.filters) :
    other.acceptsRecord = request.acceptsRecord := by
  funext record
  rw [acceptsRecord, acceptsRecord]
  simp only [accepts, same]

/-- The batches of some lists hold all that is let through of them, in the same order. -/
theorem flatMap_records_of_cuts {parts : List (List (List SizedRecord))}
    (cuts : List.Forall₂ request.Cuts lists parts) :
    (parts.flatten.map RecordBatch.ofSized).flatMap RecordBatch.records =
      (lists.flatten.map Prod.fst).filter request.acceptsRecord := by
  induction cuts with
  | nil => rfl
  | @cons records part _ _ first _ ih =>
    have here : (part.map RecordBatch.ofSized).flatMap RecordBatch.records =
        (records.map Prod.fst).filter request.acceptsRecord := by
      rw [← map_fst_wanted, ← first.whole, List.map_flatten, List.flatMap_map, List.flatMap_def]
      rfl
    rw [List.flatten_cons, List.map_append, List.flatMap_append, ih, here, List.flatten_cons,
      List.map_append, List.filter_append]

theorem bounds_of_cuts {parts : List (List (List SizedRecord))} {part : List SizedRecord}
    (cuts : List.Forall₂ request.Cuts lists parts) (member : part ∈ parts.flatten) :
    request.Bounds part := by
  induction cuts with
  | nil => cases member
  | cons first _ ih =>
    rw [List.flatten_cons, List.mem_append] at member
    exact member.elim (first.bounds part) ih

end BatchRequest

theorem RecordSource.HandsOut.unique {σ : Type} [RecordSource σ] {request : BatchRequest}
    {source : σ} {batches others : List RecordBatch} (handsOut : HandsOut request source batches)
    (again : HandsOut request source others) : others = batches :=
  (handsOut.yields.unique again.yields).1

/-- A source that is whole ends once it has handed out all that the request lets through; one that
is not whole fails. -/
theorem RecordSource.Serves.exists_yields {σ : Type} [RecordSource σ] {request : BatchRequest}
    {left : σ → List (List SizedRecord)} {whole : σ → Prop} (serves : Serves request left whole)
    (source : σ) : ∃ batches failure, Yields request source batches failure ∧
      (failure = none ↔ whole source) ∧
      (failure = none → batches.flatMap RecordBatch.records =
        ((left source).flatten.map Prod.fst).filter request.acceptsRecord) := by
  by_cases isWhole : whole source
  · obtain ⟨parts, cuts, handsOut⟩ := serves.exists_handsOut isWhole
    exact ⟨_, none, handsOut.yields, iff_of_true rfl isWhole,
      fun _ => BatchRequest.flatMap_records_of_cuts cuts⟩
  · obtain ⟨batches, cause, yields⟩ := serves.exists_yields_failure isWhole
    exact ⟨batches, some cause, yields, iff_of_false nofun isWhole, nofun⟩

/-- What a source hands out for a request does not depend on the bounds. -/
theorem Source.Holds.flatMap_records {source : Source} {lists : List (List SizedRecord)}
    {request : BatchRequest} {batches : List RecordBatch} (holds : source.Holds lists)
    (positive : 0 < request.maxDocuments) (handsOut : HandsOut request source batches) :
    batches.flatMap RecordBatch.records =
      (lists.flatten.map Prod.fst).filter request.acceptsRecord := by
  obtain ⟨parts, cuts, expected⟩ := (Source.serves positive).exists_handsOut holds.isWhole
  rw [holds.left_eq] at cuts
  rw [expected.unique handsOut]
  exact BatchRequest.flatMap_records_of_cuts cuts

/-- A source that is asked again and again hands out every record that the request lets through, once
and in order, in batches that keep the bounds and have no room for the next record of the list, and
then nothing any more.  Other bounds cut the same records. -/
theorem Source.Holds.hands_out {source : Source} {lists : List (List SizedRecord)}
    {request : BatchRequest} (holds : source.Holds lists) (positive : 0 < request.maxDocuments) :
    ∃ parts : List (List (List SizedRecord)), List.Forall₂ request.Cuts lists parts ∧
      let batches := parts.flatten.map RecordBatch.ofSized
      (∀ n, answer request source n = .ok batches[n]?) ∧
      (∀ batch ∈ batches, batch.records ≠ [] ∧ batch.records.length ≤ request.maxDocuments ∧
        (batch.size ≤ request.maxBytes ∨ batch.records.length = 1)) ∧
      batches.flatMap RecordBatch.records =
        (lists.flatten.map Prod.fst).filter request.acceptsRecord ∧
      ∀ (other : BatchRequest) (others : List RecordBatch), other.filters = request.filters →
        0 < other.maxDocuments → HandsOut other source others →
        others.flatMap RecordBatch.records = batches.flatMap RecordBatch.records := by
  obtain ⟨parts, cuts, handsOut⟩ := (serves positive).exists_handsOut holds.isWhole
  rw [holds.left_eq] at cuts
  refine ⟨parts, cuts, handsOut, ?_, BatchRequest.flatMap_records_of_cuts cuts, ?_⟩
  · intro batch member
    obtain ⟨part, among, rfl⟩ := List.mem_map.mp member
    obtain ⟨nonempty, count, size⟩ := BatchRequest.bounds_of_cuts cuts among
    rw [RecordBatch.records_ofSized, RecordBatch.size_ofSized, List.length_map]
    exact ⟨mt List.map_eq_nil_iff.mp nonempty, count, size⟩
  · intro other others same positiveOther otherHandsOut
    rw [holds.flatMap_records positiveOther otherHandsOut,
      BatchRequest.flatMap_records_of_cuts cuts, BatchRequest.acceptsRecord_congr same]

/-- Two records with a line of blanks between them. -/
def Source.fewLines : Bytes :=
  Utf8.encode "\x7b\"_id\":\"1:/a\"\x7d\n \n\x7b\"_id\":\"1:/b\"\x7d"

theorem Source.fewLines_hold : (Source.jsonLines (.ofBytes "few.json" fewLines)).Holds
    [[(.node "/a" [], 14), (.node "/b" [], 14)]] := by
  refine .jsonLines _ ?_
  have lines : JsonLines.splitLines [] fewLines =
      [Utf8.encode "\x7b\"_id\":\"1:/a\"\x7d", Utf8.encode " ",
        Utf8.encode "\x7b\"_id\":\"1:/b\"\x7d"] := by
    decide +kernel
  rw [lines]
  have first : Utf8.decode (Utf8.encode "\x7b\"_id\":\"1:/a\"\x7d") =
      .ok "\x7b\"_id\":\"1:/a\"\x7d" := rfl
  have blank : Utf8.decode (Utf8.encode " ") = .ok " " := rfl
  have second : Utf8.decode (Utf8.encode "\x7b\"_id\":\"1:/b\"\x7d") =
      .ok "\x7b\"_id\":\"1:/b\"\x7d" := rfl
  exact .record first (by decide +kernel) rfl
    (.blank blank (by decide +kernel) (.record second (by decide +kernel) rfl .nil))

/-- A request for one record at a time hands out both, one after the other. -/
theorem Source.fewLines_hand_out : ∃ batches,
    HandsOut ⟨1, 1, []⟩ (Source.jsonLines (.ofBytes "few.json" fewLines)) batches ∧
      batches.flatMap RecordBatch.records = [.node "/a" [], .node "/b" []] := by
  obtain ⟨parts, -, handsOut, -, all, -⟩ :=
    fewLines_hold.hands_out (show 0 < (⟨1, 1, []⟩ : BatchRequest).maxDocuments from Nat.one_pos)
  exact ⟨_, handsOut, all⟩

end TreeExport

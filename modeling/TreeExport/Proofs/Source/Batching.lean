import Mathlib.Data.List.Chain
import Mathlib.Data.List.Forall2
import TreeExport.Proofs.Source.Yields

/-!
# How a source cuts its records into batches

A source holds lists of records, each with its size.  What a request lets through of a list is cut
into batches that keep its bounds, and none of them has room for the record that comes next
(`BatchRequest.Cuts`).  `BatchRequest.Answers` says what one answer takes from the lists and what it
leaves of them; a source that always answers so hands out all that the request lets through, in such
batches, and then nothing any more (`RecordSource.Serves.exists_handsOut`), or it fails
(`RecordSource.Serves.exists_yields_failure`).
-/

namespace TreeExport

/-- A record and its size in bytes, as its source counts it. -/
abbrev SizedRecord := Record × Nat

/-- The batch of some records, with the sum of their sizes. -/
def RecordBatch.ofSized (part : List SizedRecord) : RecordBatch :=
  ⟨part.map Prod.fst, total (part.map Prod.snd)⟩

@[simp] theorem RecordBatch.records_ofSized (part : List SizedRecord) :
    (RecordBatch.ofSized part).records = part.map Prod.fst := rfl

@[simp] theorem RecordBatch.size_ofSized (part : List SizedRecord) :
    (RecordBatch.ofSized part).size = total (part.map Prod.snd) := rfl

namespace BatchRequest

/-- The records that the request lets through. -/
def wanted (request : BatchRequest) (records : List SizedRecord) : List SizedRecord :=
  records.filter fun sized => request.acceptsRecord sized.1

/-- The records make a batch within the bounds of the request.  One that is alone may be of any
size. -/
structure Bounds (request : BatchRequest) (part : List SizedRecord) : Prop where
  nonempty : part ≠ []
  count : part.length ≤ request.maxDocuments
  size : total (part.map Prod.snd) ≤ request.maxBytes ∨ part.length = 1

/-- What the request lets through of some records is cut into batches within its bounds, and the
record that begins one of them would have taken the one before out of them. -/
structure Cuts (request : BatchRequest) (records : List SizedRecord)
    (parts : List (List SizedRecord)) : Prop where
  whole : parts.flatten = request.wanted records
  bounds : ∀ part ∈ parts, request.Bounds part
  maximal : parts.IsChain fun part later =>
    ∀ following ∈ later.head?, ¬ request.Bounds (part ++ [following])

variable {request : BatchRequest} {records left part front : List SizedRecord}
  {parts : List (List SizedRecord)} {lists after : List (List SizedRecord)}

theorem wanted_append (request : BatchRequest) (front back : List SizedRecord) :
    request.wanted (front ++ back) = request.wanted front ++ request.wanted back :=
  List.filter_append ..

theorem map_fst_wanted (request : BatchRequest) (records : List SizedRecord) :
    (request.wanted records).map Prod.fst =
      (records.map Prod.fst).filter request.acceptsRecord := by
  rw [wanted, List.filter_map]
  rfl

/-- Records of which nothing is let through need no batch. -/
theorem cuts_nil (none : request.wanted records = []) : request.Cuts records [] :=
  ⟨none.symm, fun _ member => absurd member List.not_mem_nil, .nil⟩

/-- A batch in front of the others. -/
theorem Cuts.cons (cuts : request.Cuts left parts) (bounds : request.Bounds part)
    (split : request.wanted records = part ++ request.wanted left)
    (full : ∀ following ∈ (request.wanted left).head?, ¬ request.Bounds (part ++ [following])) :
    request.Cuts records (part :: parts) := by
  refine ⟨?_, List.forall_mem_cons.mpr ⟨bounds, cuts.bounds⟩, ?_⟩
  · rw [List.flatten_cons, cuts.whole, split]
  · refine List.isChain_cons.mpr ⟨fun later first following head => full following ?_, cuts.maximal⟩
    obtain ⟨others, rfl⟩ : ∃ others, parts = later :: others := by
      cases parts with
      | nil => cases first
      | cons other others =>
        cases first
        exact ⟨others, rfl⟩
    rw [← cuts.whole, List.flatten_cons, List.head?_append, head]
    rfl

/-! ### Room in a batch -/

/-- What is in a batch so far, if anything, keeps the bounds. -/
def Admits (request : BatchRequest) (front : List SizedRecord) : Prop :=
  front = [] ∨ request.Bounds front

/-- A batch that holds the greatest number of records has no room. -/
theorem not_bounds_of_count (full : request.maxDocuments ≤ front.length) (following : SizedRecord) :
    ¬ request.Bounds (front ++ [following]) := by
  intro bounds
  have count := bounds.count
  rw [List.length_append, List.length_singleton] at count
  omega

theorem not_bounds_of_size {following : SizedRecord} (some : front ≠ [])
    (excess : request.maxBytes < total (front.map Prod.snd) + following.2) :
    ¬ request.Bounds (front ++ [following]) := by
  intro bounds
  have positive := List.length_pos_iff.mpr some
  have size := bounds.size
  simp only [List.map_append, List.map_cons, List.map_nil, total_append, total_cons, total_nil,
    Nat.add_zero, List.length_append, List.length_singleton] at size
  omega

/-- Where neither bound is reached there is room for one more record. -/
theorem bounds_concat {following : SizedRecord} (room : front.length < request.maxDocuments)
    (small : ¬ (front ≠ [] ∧ request.maxBytes < total (front.map Prod.snd) + following.2)) :
    request.Bounds (front ++ [following]) := by
  refine ⟨List.append_ne_nil_of_right_ne_nil _ (List.cons_ne_nil _ _), ?_, ?_⟩
  · rw [List.length_append, List.length_singleton]
    exact room
  · by_cases first : front = []
    · exact .inr (by rw [first]; rfl)
    · refine .inl (Nat.not_lt.mp fun excess => small ⟨first, ?_⟩)
      simpa only [List.map_append, List.map_cons, List.map_nil, total_append, total_cons, total_nil,
        Nat.add_zero] using excess

/-! ## One answer -/

/-- The answer takes a batch from the first list of which anything is let through, and leaves the
rest of that list in front of the others; of an empty list nothing may be left. -/
inductive Takes (request : BatchRequest) :
    List (List SizedRecord) → List SizedRecord → List (List SizedRecord) → Prop
  | here {records left part : List SizedRecord} {lists : List (List SizedRecord)}
      (bounds : request.Bounds part)
      (split : request.wanted records = part ++ request.wanted left)
      (full : ∀ following ∈ (request.wanted left).head?, ¬ request.Bounds (part ++ [following])) :
      Takes request (records :: lists) part (left :: lists)
  | skip {records part : List SizedRecord} {lists after : List (List SizedRecord)}
      (none : request.wanted records = []) (later : Takes request lists part after) :
      Takes request (records :: lists) part after
  | drop {part : List SizedRecord} {lists after : List (List SizedRecord)}
      (taken : Takes request lists part ([] :: after)) : Takes request lists part after

/-- What a source may answer that has lists of records left, and what it has left then.  It fails
some time just if it is not whole. -/
inductive Answers (request : BatchRequest) (lists : List (List SizedRecord)) (whole : Prop) :
    Except Error (Option RecordBatch) → List (List SizedRecord) → Prop → Prop
  | failed {cause : Error} {after : List (List SizedRecord)} {wholeAfter : Prop}
      (spoilt : ¬ whole) : Answers request lists whole (.error cause) after wholeAfter
  | ended {after : List (List SizedRecord)} {wholeAfter : Prop} (isWhole : whole)
      (nothing : request.wanted lists.flatten = []) (still : wholeAfter)
      (nothingAfter : request.wanted after.flatten = []) :
      Answers request lists whole (.ok none) after wholeAfter
  | batch {part : List SizedRecord} {after : List (List SizedRecord)} {wholeAfter : Prop}
      (takes : request.Takes lists part after) (same : wholeAfter ↔ whole) :
      Answers request lists whole (.ok (some (.ofSized part))) after wholeAfter

/-- A list of which nothing is let through makes no difference. -/
theorem Answers.skip {whole wholeAfter : Prop} {answer : Except Error (Option RecordBatch)}
    (answers : request.Answers lists whole answer after wholeAfter)
    (none : request.wanted records = []) :
    request.Answers (records :: lists) whole answer after wholeAfter := by
  cases answers with
  | failed spoilt => exact .failed spoilt
  | ended isWhole nothing still nothingAfter =>
    refine .ended isWhole ?_ still nothingAfter
    rw [List.flatten_cons, wanted_append, none, nothing, List.append_nil]
  | batch takes same => exact .batch (.skip none takes) same

theorem Takes.bounds (takes : request.Takes lists part after) : request.Bounds part := by
  induction takes with
  | here bounds => exact bounds
  | skip _ _ ih => exact ih
  | drop _ ih => exact ih

/-- What is taken and what is left is what was there. -/
theorem Takes.split (takes : request.Takes lists part after) :
    request.wanted lists.flatten = part ++ request.wanted after.flatten := by
  induction takes with
  | here _ split =>
    rw [List.flatten_cons, List.flatten_cons, wanted_append, wanted_append, split, List.append_assoc]
  | skip none _ ih => rw [List.flatten_cons, wanted_append, none, List.nil_append, ih]
  | drop _ ih => exact ih

theorem Takes.length_lt (takes : request.Takes lists part after) :
    (request.wanted after.flatten).length < (request.wanted lists.flatten).length := by
  have positive := List.length_pos_iff.mpr takes.bounds.nonempty
  rw [takes.split, List.length_append]
  omega

/-- If what is left is cut into batches, so is all with the batch in front. -/
theorem Takes.cuts (takes : request.Takes lists part after) {later : List (List (List SizedRecord))}
    (cuts : List.Forall₂ request.Cuts after later) :
    ∃ all, List.Forall₂ request.Cuts lists all ∧ all.flatten = part :: later.flatten := by
  induction takes generalizing later with
  | @here records left part lists bounds split full =>
    cases cuts with
    | @cons _ parts _ others first rest =>
      exact ⟨(part :: parts) :: others, .cons (first.cons bounds split full) rest, rfl⟩
  | skip none _ ih =>
    obtain ⟨all, others, flat⟩ := ih cuts
    exact ⟨[] :: all, .cons (cuts_nil none) others, flat⟩
  | drop _ ih =>
    obtain ⟨all, others, flat⟩ := ih (.cons (cuts_nil rfl) cuts)
    exact ⟨all, others, flat⟩

/-- Lists of which nothing is let through need no batch. -/
theorem exists_cuts_nil (nothing : request.wanted lists.flatten = []) :
    ∃ all, List.Forall₂ request.Cuts lists all ∧ all.flatten = [] := by
  induction lists with
  | nil => exact ⟨[], .nil, rfl⟩
  | cons records lists ih =>
    rw [List.flatten_cons, wanted_append, List.append_eq_nil_iff] at nothing
    obtain ⟨all, others, flat⟩ := ih nothing.2
    exact ⟨[] :: all, .cons (cuts_nil nothing.1) others, flat⟩

end BatchRequest

/-! ## All answers -/

namespace RecordSource

variable {σ : Type} [RecordSource σ] {request : BatchRequest} {source after : σ}
  {batches : List RecordBatch} {batch : RecordBatch}

/-- The answers of a source to one request that is made again and again. -/
def answer (request : BatchRequest) : σ → Nat → Except Error (Option RecordBatch)
  | source, 0 => (next request source).1
  | source, n + 1 => answer request (next request source).2 n

/-- Asked again and again, the source hands out these batches and then none, for ever. -/
def HandsOut (request : BatchRequest) (source : σ) (batches : List RecordBatch) : Prop :=
  ∀ n, answer request source n = .ok batches[n]?

theorem HandsOut.cons (answered : next request source = (.ok (some batch), after))
    (later : HandsOut request after batches) : HandsOut request source (batch :: batches) := by
  intro n
  cases n with
  | zero => rw [answer, answered, List.getElem?_cons_zero]
  | succ n => rw [answer, answered, List.getElem?_cons_succ, later n]

/-- A source that answers with none and is then one that does so again never hands out anything. -/
theorem handsOut_nil (exhausted : σ → Prop) (isOver : exhausted source)
    (stays : ∀ source, exhausted source → ∃ after,
      next request source = (.ok none, after) ∧ exhausted after) :
    HandsOut request source [] := by
  intro n
  induction n generalizing source with
  | zero =>
    obtain ⟨after, answered, -⟩ := stays source isOver
    rw [answer, answered, List.getElem?_nil]
  | succ n ih =>
    obtain ⟨after, answered, still⟩ := stays source isOver
    rw [answer, answered, ih still, List.getElem?_nil, List.getElem?_nil]

theorem HandsOut.yields (handsOut : HandsOut request source batches) :
    Yields request source batches none := by
  induction batches generalizing source with
  | nil =>
    have first : (next request source).1 = .ok none := handsOut 0
    exact .ended (Prod.ext first rfl)
  | cons batch batches ih =>
    have first : (next request source).1 = .ok (some batch) := handsOut 0
    exact .batch (Prod.ext first rfl) (ih fun n => handsOut (n + 1))

/-- Whatever source it is, it answers a request as one should that has the lists `left` and is whole
just if `whole`. -/
def Serves (request : BatchRequest) (left : σ → List (List SizedRecord)) (whole : σ → Prop) : Prop :=
  ∀ source, request.Answers (left source) (whole source) (next request source).1
    (left (next request source).2) (whole (next request source).2)

/-- A source that is whole hands out all that the request lets through of each of its lists, and then
nothing any more. -/
theorem Serves.exists_handsOut {left : σ → List (List SizedRecord)} {whole : σ → Prop}
    (serves : Serves request left whole) {source : σ} (isWhole : whole source) :
    ∃ parts, List.Forall₂ request.Cuts (left source) parts ∧
      HandsOut request source (parts.flatten.map .ofSized) := by
  rcases asked : next request source with ⟨answer, after⟩
  have answered := serves source
  rw [asked] at answered
  cases answered with
  | failed spoilt => exact absurd isWhole spoilt
  | ended _ nothing =>
    obtain ⟨all, cuts, flat⟩ := BatchRequest.exists_cuts_nil nothing
    refine ⟨all, cuts, ?_⟩
    rw [flat]
    refine handsOut_nil (fun source => whole source ∧ request.wanted (left source).flatten = [])
      ⟨isWhole, nothing⟩ ?_
    rintro source ⟨isWhole, nothing⟩
    rcases asked : next request source with ⟨answer, after⟩
    have answered := serves source
    rw [asked] at answered
    cases answered with
    | failed spoilt => exact absurd isWhole spoilt
    | ended _ _ still nothingAfter => exact ⟨after, rfl, still, nothingAfter⟩
    | batch takes =>
      have fewer := takes.length_lt
      rw [nothing] at fewer
      cases fewer
  | @batch part _ _ takes same =>
    obtain ⟨later, cuts, handsOut⟩ := serves.exists_handsOut (same.mpr isWhole)
    obtain ⟨all, cutsAll, flat⟩ := takes.cuts cuts
    refine ⟨all, cutsAll, ?_⟩
    rw [flat]
    exact handsOut.cons asked
termination_by (request.wanted (left source).flatten).length
decreasing_by exact takes.length_lt

/-- A source that is not whole fails after some batches. -/
theorem Serves.exists_yields_failure {left : σ → List (List SizedRecord)} {whole : σ → Prop}
    (serves : Serves request left whole) {source : σ} (spoilt : ¬ whole source) :
    ∃ batches cause, Yields request source batches (some cause) := by
  rcases asked : next request source with ⟨answer, after⟩
  have answered := serves source
  rw [asked] at answered
  cases answered with
  | @failed cause => exact ⟨[], cause, .failed asked⟩
  | ended isWhole => exact absurd isWhole spoilt
  | batch takes same =>
    obtain ⟨batches, cause, yields⟩ :=
      serves.exists_yields_failure fun still => spoilt (same.mp still)
    exact ⟨_, cause, .batch asked yields⟩
termination_by (request.wanted (left source).flatten).length
decreasing_by exact takes.length_lt

end RecordSource

end TreeExport

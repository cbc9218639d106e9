import TreeExport.Source.Basic

/-!
# What a source yields

`RecordSource.Yields` holds of a finite source: it answers a request, made again and again, with
some batches and then with none or with a failure.  Both are determined by the source.
-/

namespace TreeExport.RecordSource

variable {σ : Type} [RecordSource σ]

/-- Asked again and again, the source hands out some batches and then ends, or fails. -/
inductive Yields (request : BatchRequest) : σ → List RecordBatch → Option Error → Prop
  | ended {source after : σ} (answer : next request source = (.ok none, after)) :
      Yields request source [] none
  | failed {source after : σ} {cause : Error}
      (answer : next request source = (.error cause, after)) :
      Yields request source [] (some cause)
  | batch {source after : σ} {batch : RecordBatch} {rest : List RecordBatch}
      {failure : Option Error} (answer : next request source = (.ok (some batch), after))
      (later : Yields request after rest failure) :
      Yields request source (batch :: rest) failure

variable {request : BatchRequest} {source after : σ} {batches : List RecordBatch}
  {failure : Option Error}

theorem Yields.of_none (yields : Yields request source batches failure)
    (answer : next request source = (.ok none, after)) : batches = [] ∧ failure = none := by
  cases yields with
  | ended => exact ⟨rfl, rfl⟩
  | failed other => cases answer.symm.trans other
  | batch other => cases answer.symm.trans other

theorem Yields.of_error {cause : Error} (yields : Yields request source batches failure)
    (answer : next request source = (.error cause, after)) :
    batches = [] ∧ failure = some cause := by
  cases yields with
  | ended other => cases answer.symm.trans other
  | failed other =>
    cases answer.symm.trans other
    exact ⟨rfl, rfl⟩
  | batch other => cases answer.symm.trans other

theorem Yields.of_some {batch : RecordBatch} (yields : Yields request source batches failure)
    (answer : next request source = (.ok (some batch), after)) :
    ∃ rest, batches = batch :: rest ∧ Yields request after rest failure := by
  cases yields with
  | ended other => cases answer.symm.trans other
  | failed other => cases answer.symm.trans other
  | batch other later =>
    cases answer.symm.trans other
    exact ⟨_, rfl, later⟩

theorem Yields.unique {others : List RecordBatch} {other : Option Error}
    (yields : Yields request source batches failure)
    (again : Yields request source others other) : others = batches ∧ other = failure := by
  induction yields generalizing others with
  | ended answer => exact again.of_none answer
  | failed answer => exact again.of_error answer
  | batch answer _ ih =>
    obtain ⟨rest, rfl, later⟩ := again.of_some answer
    obtain ⟨rfl, rfl⟩ := ih later
    exact ⟨rfl, rfl⟩

open Classical in
/-- The batches that a finite source has left to hand out. -/
noncomputable def due (request : BatchRequest) (source : σ) : List RecordBatch :=
  if finite : ∃ batches failure, Yields request source batches failure then finite.choose else []

theorem Yields.due_eq (yields : Yields request source batches failure) :
    due request source = batches := by
  have finite : ∃ batches failure, Yields request source batches failure := ⟨_, _, yields⟩
  obtain ⟨other, again⟩ := finite.choose_spec
  rw [due, dif_pos finite]
  exact (yields.unique again).1

end TreeExport.RecordSource

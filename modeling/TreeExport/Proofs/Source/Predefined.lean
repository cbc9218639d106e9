import TreeExport.Proofs.Source.Batching
import TreeExport.Source.Predefined

/-!
# Batches from lists

A batch comes from the first list of which the request lets anything through, and what its bounds
leave of that list goes in front of the others (`Predefined.answers_next`).  That only wanted records
are put back makes no difference to the same request.
-/

namespace TreeExport.Predefined

/-- A record with the size that a source of lists counts it by. -/
def sized (record : Record) : SizedRecord :=
  (record, record.approximateSize)

/-- The lists that a source has left. -/
def left (source : Predefined) : List (List SizedRecord) :=
  source.lists.map fun records => records.map sized

variable {request : BatchRequest} {source : Predefined} {front : List SizedRecord}
  {records taken rest : List Record}

theorem wanted_map_sized (request : BatchRequest) (records : List Record) :
    request.wanted (records.map sized) = (records.filter request.acceptsRecord).map sized :=
  List.filter_map

theorem ofRecords_eq (records : List Record) :
    RecordBatch.ofRecords records = .ofSized (records.map sized) := by
  simp only [RecordBatch.ofRecords, RecordBatch.ofSized, List.map_map]
  exact congrArg (RecordBatch.mk · _) (List.map_id _).symm

/-- A list is cut where the bounds are reached. -/
theorem cut_eq (admits : request.Admits front)
    (cuts : cut request front.length (total (front.map Prod.snd)) records = (taken, rest)) :
    records = taken ++ rest ∧ request.Admits (front ++ taken.map sized) ∧
      ∀ following ∈ rest.head?, ¬ request.Bounds (front ++ taken.map sized ++ [sized following]) := by
  induction records generalizing front taken with
  | nil =>
    cases cuts
    refine ⟨rfl, ?_, nofun⟩
    rwa [List.map_nil, List.append_nil]
  | cons record records ih =>
    rw [cut] at cuts
    split at cuts
    · next full =>
      cases cuts
      rw [List.map_nil, List.append_nil]
      refine ⟨rfl, admits, ?_⟩
      rintro following ⟨⟩
      rcases full with count | ⟨some, size⟩
      · exact BatchRequest.not_bounds_of_count (Nat.le_of_eq count.symm) _
      · exact BatchRequest.not_bounds_of_size (mt List.length_eq_zero_iff.mpr some) size
    · next room =>
      rw [not_or] at room
      have count : front.length < request.maxDocuments := by
        refine Nat.lt_of_le_of_ne ?_ room.1
        rcases admits with rfl | bounds
        · exact Nat.zero_le _
        · exact bounds.count
      have more : request.Bounds (front ++ [sized record]) :=
        BatchRequest.bounds_concat count fun excess =>
          room.2 ⟨mt List.length_eq_zero_iff.mp excess.1, excess.2⟩
      rcases later : cut request (front.length + 1)
        (total (front.map Prod.snd) + record.approximateSize) records with ⟨others, behind⟩
      rw [later] at cuts
      obtain ⟨rfl, rfl⟩ := Prod.mk.inj cuts
      have moved : cut request (front ++ [sized record]).length
          (total ((front ++ [sized record]).map Prod.snd)) records = (others, behind) := by
        simpa only [sized, List.length_append, List.length_singleton, List.map_append,
          List.map_cons, List.map_nil, total_append, total_cons, total_nil, Nat.add_zero] using later
      obtain ⟨rfl, admitsAll, full⟩ := ih (.inr more) moved
      rw [List.append_assoc, List.singleton_append] at admitsAll full
      exact ⟨rfl, admitsAll, full⟩

/-- A batch is cut off a list of which something is let through, and the rest is put back. -/
theorem takes_cut (positive : 0 < request.maxDocuments) (lists : List (List Record))
    (some : records.filter request.acceptsRecord ≠ [])
    (cuts : cut request 0 0 (records.filter request.acceptsRecord) = (taken, rest)) :
    request.Takes ((records :: lists).map fun records => records.map sized) (taken.map sized)
      ((putBack rest lists).map fun records => records.map sized) := by
  obtain ⟨whole, admits, full⟩ := cut_eq (.inl rfl) cuts
  rw [List.nil_append] at admits full
  have bounds : request.Bounds (taken.map sized) := by
    refine admits.resolve_left fun nothing => ?_
    rw [List.map_eq_nil_iff.mp nothing, List.nil_append] at whole
    obtain ⟨first, others, here⟩ := List.exists_cons_of_ne_nil (whole ▸ some)
    rw [here] at full
    refine full first rfl (BatchRequest.bounds_concat ?_ fun excess => excess.1 nothing)
    rw [nothing]
    exact positive
  have stays : request.wanted (rest.map sized) = rest.map sized := by
    rw [wanted_map_sized, List.filter_eq_self.mpr]
    intro record member
    have back : record ∈ records.filter request.acceptsRecord :=
      whole ▸ List.mem_append_right _ member
    exact (List.mem_filter.mp back).2
  have here : request.Takes ((records :: lists).map fun records => records.map sized)
      (taken.map sized) ((rest :: lists).map fun records => records.map sized) := by
    refine .here bounds ?_ fun following head => ?_
    · rw [stays, wanted_map_sized, whole, List.map_append]
    · rw [stays, List.head?_map] at head
      obtain ⟨first, isFirst, rfl⟩ := Option.map_eq_some_iff.mp head
      exact full first isFirst
  unfold putBack
  split
  · next nothing =>
    rw [List.isEmpty_iff.mp nothing] at here
    exact .drop here
  · exact here

theorem answers_go (positive : 0 < request.maxDocuments) (source : Predefined)
    (lists : List (List Record)) :
    request.Answers (lists.map fun records => records.map sized) (source.failure = none)
      (next.go request source lists).1 (next.go request source lists).2.left
      ((next.go request source lists).2.failure = none) := by
  induction lists with
  | nil =>
    unfold next.go
    cases failure : source.failure with
    | some message => exact .failed nofun
    | none => exact .ended rfl rfl rfl rfl
  | cons records lists ih =>
    rw [next.go]
    by_cases nothing : records.filter request.acceptsRecord = []
    · simp only [nothing, List.isEmpty_nil, if_true]
      exact ih.skip (by rw [wanted_map_sized, nothing, List.map_nil])
    · rcases cuts : cut request 0 0 (records.filter request.acceptsRecord) with ⟨taken, rest⟩
      simp only [List.isEmpty_iff, nothing, if_false, ofRecords_eq]
      exact .batch (takes_cut positive lists nothing cuts) Iff.rfl

/-- Whatever a source of lists answers, it answers from the lists that it has left. -/
theorem answers_next (positive : 0 < request.maxDocuments) (source : Predefined) :
    request.Answers source.left (source.failure = none) (source.next request).1
      (source.next request).2.left ((source.next request).2.failure = none) :=
  answers_go positive source source.lists

end TreeExport.Predefined

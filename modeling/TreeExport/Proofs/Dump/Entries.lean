import TreeExport.Proofs.Dump.Packing

/-!
# What a dump makes of records

An accepted record becomes an entry (`Extraction.entry?`), unless there is a fault with it
(`Extraction.fault?`): its id names no place, its path holds a bar, a reference in it cannot be
resolved, or its payload is too long for a buffer.  Neither depends on anything but the record, the
predicate, the blobs and the size of a buffer.
-/

namespace TreeExport

/-! ## References to blobs -/

namespace Entry

mutual

/-- The references that are looked up in a value. -/
def references : Json → List String
  | .object [(key, .string reference)] => if key = referenceKey then [reference] else []
  | .array items => itemReferences items
  | _ => []

/-- The references that are looked up in the items of an array. -/
def itemReferences : List Json → List String
  | [] => []
  | item :: rest => references item ++ itemReferences rest

end

/-- The references that are looked up in the fields of a node. -/
def fieldReferences (fields : List (String × Json)) : List String :=
  fields.flatMap fun (name, value) => if isSystemField name then [] else references value

/-- What is done for some references fails just as one of them does. -/
def FailsWith {α : Type} (blobs : BlobResolver) (looked : List String) : Except Error α → Prop
  | .ok _ => ∀ reference ∈ looked, ∃ id, blobs reference = .ok id
  | .error cause => ∃ reference ∈ looked, blobs reference = .error cause

variable {α β : Type} {blobs : BlobResolver} {looked more : List String}

theorem FailsWith.bind {first : Except Error α} {next : α → Except Error β}
    (fails : FailsWith blobs looked first) (later : ∀ a, FailsWith blobs more (next a)) :
    FailsWith blobs (looked ++ more) (first >>= next) := by
  cases first with
  | error cause =>
    obtain ⟨reference, member, refused⟩ := fails
    exact ⟨reference, List.mem_append_left _ member, refused⟩
  | ok a =>
    have rest := later a
    change FailsWith blobs (looked ++ more) (next a)
    cases answer : next a with
    | error cause =>
      rw [answer] at rest
      obtain ⟨reference, member, refused⟩ := rest
      exact ⟨reference, List.mem_append_right _ member, refused⟩
    | ok b =>
      rw [answer] at rest
      intro reference member
      rcases List.mem_append.mp member with early | late
      · exact fails reference early
      · exact rest reference late

theorem FailsWith.map {answer : Except Error α} (f : α → β)
    (fails : FailsWith blobs looked answer) : FailsWith blobs looked (answer.map f) := by
  cases answer <;> exact fails

mutual

theorem failsWith_resolve (blobs : BlobResolver) (value : Json) :
    FailsWith blobs (references value) (resolve blobs value) := by
  unfold references
  split
  next key reference =>
    rw [resolve]
    split
    · refine FailsWith.map _ ?_
      cases answer : blobs reference with
      | ok id =>
        intro other member
        obtain rfl := List.mem_singleton.mp member
        exact ⟨id, answer⟩
      | error cause => exact ⟨reference, List.mem_singleton.mpr rfl, answer⟩
    · exact fun _ none => absurd none List.not_mem_nil
  next items =>
    rw [resolve]
    exact (failsWith_resolveItems blobs items).map _
  next single array =>
    rw [resolve.eq_3 blobs value single array]
    exact fun _ none => absurd none List.not_mem_nil

theorem failsWith_resolveItems (blobs : BlobResolver) (items : List Json) :
    FailsWith blobs (itemReferences items) (resolveItems blobs items) := by
  cases items with
  | nil => exact fun _ none => absurd none List.not_mem_nil
  | cons item rest =>
    rw [itemReferences, resolveItems]
    refine (failsWith_resolve blobs item).bind fun value => ?_
    rw [← List.append_nil (itemReferences rest)]
    exact (failsWith_resolveItems blobs rest).bind fun values _ none =>
      absurd none List.not_mem_nil

end

end Entry

/-! ## Entries and faults -/

namespace Extraction

variable {extraction : Extraction} {record : Record} {path : String} {payload : Bytes}
  {capacity maxEntries : Nat}

/-- The entry that an accepted record becomes: its path and its own properties as JSON text. -/
def entry? (extraction : Extraction) (record : Record) : Option StoredEntry :=
  match extraction.judge record with
  | .accepted path =>
    (Entry.json extraction.blobs record.fields).toOption.map fun text => ⟨path, Utf8.encode text⟩
  | _ => none

/-- What is wrong with a record, where buffers have some capacity and hold so many entries. -/
def fault? (extraction : Extraction) (capacity maxEntries : Nat) (record : Record) :
    Option Error :=
  match extraction.judge record with
  | .malformed fault => some fault.toError
  | .accepted path =>
    match extraction.payload path record with
    | .error cause => some cause
    | .ok payload =>
      if capacity < Length.width + payload.length then
        some (Worker.oversized path payload (.empty capacity maxEntries))
      else none
  | _ => none

/-- The record is accepted, as the node at a path: its id names that path, it is not deleted, the
path is not hidden, and it is wanted. -/
structure Accepts (extraction : Extraction) (record : Record) (path : String) : Prop where
  located : record.locate = .ok (.node path)
  there : record.deleted = false
  shown : Path.isHidden path = false
  wanted : extraction.wants path = true

theorem judge_eq_accepted_iff :
    extraction.judge record = .accepted path ↔ extraction.Accepts record path := by
  constructor
  · intro verdict
    unfold judge at verdict
    split at verdict
    · cases verdict
    · cases verdict
    · next located =>
      split at verdict
      · cases verdict
      · next there =>
        split at verdict
        · cases verdict
        · next shown =>
          split at verdict
          · cases verdict
          · next wanted =>
            cases verdict
            exact ⟨located, by simpa using there, by simpa using shown, by simpa using wanted⟩
  · rintro ⟨located, there, shown, wanted⟩
    simp only [judge, located, there, shown, wanted, Bool.not_true, Bool.false_eq_true, if_false]

/-- A payload carries the entry of its record. -/
theorem entry?_of_payload (verdict : extraction.judge record = .accepted path)
    (bytes : extraction.payload path record = .ok payload) :
    ∃ entry, extraction.entry? record = some entry ∧ entry.path = path ∧
      entry.payload = payload ∧ entry.IsBarless := by
  unfold Extraction.payload Entry.encode at bytes
  split at bytes
  · cases bytes
  · next barless =>
    cases json : Entry.json extraction.blobs record.fields with
    | error cause =>
      rw [json] at bytes
      cases bytes
    | ok text =>
      rw [json] at bytes
      refine ⟨⟨path, Utf8.encode text⟩, ?_, rfl, Except.ok.inj bytes, ?_⟩
      · rw [ entry?, verdict]
        simp only [json, Except.toOption, Option.map_some]
      · intro member
        exact barless (List.contains_iff_mem.mpr member)

theorem entry?_eq_none (unwanted : ∀ path, extraction.judge record ≠ .accepted path) :
    extraction.entry? record = none := by
  unfold entry?
  split
  · next path verdict => exact absurd verdict (unwanted path)
  · rfl

theorem fault?_eq_none (wellFormed : ∀ fault, extraction.judge record ≠ .malformed fault)
    (unwanted : ∀ path, extraction.judge record ≠ .accepted path) :
    extraction.fault? capacity maxEntries record = none := by
  unfold fault?
  split
  · next fault verdict => exact absurd verdict (wellFormed fault)
  · next path verdict => exact absurd verdict (unwanted path)
  · rfl

theorem fault?_of_malformed {fault : Record.IdFault}
    (verdict : extraction.judge record = .malformed fault) :
    extraction.fault? capacity maxEntries record = some fault.toError := by
  rw [fault?, verdict]

theorem fault?_of_error {cause : Error} (verdict : extraction.judge record = .accepted path)
    (refused : extraction.payload path record = .error cause) :
    extraction.fault? capacity maxEntries record = some cause := by
  rw [fault?, verdict]
  simp only [refused]

theorem fault?_of_long (verdict : extraction.judge record = .accepted path)
    (bytes : extraction.payload path record = .ok payload)
    (long : capacity < Length.width + payload.length) :
    extraction.fault? capacity maxEntries record =
      some (Worker.oversized path payload (.empty capacity maxEntries)) := by
  rw [fault?, verdict]
  simp only [bytes, long, if_true]

theorem fault?_of_short (verdict : extraction.judge record = .accepted path)
    (bytes : extraction.payload path record = .ok payload)
    (short : Length.width + payload.length ≤ capacity) :
    extraction.fault? capacity maxEntries record = none := by
  rw [fault?, verdict]
  simp only [bytes, Nat.not_lt.mpr short, if_false]

/-- A record that is not accepted has no entry. -/
theorem entry?_of_not_accepts (unwanted : ∀ path, ¬ extraction.Accepts record path) :
    extraction.entry? record = none :=
  entry?_eq_none fun path verdict => unwanted path (judge_eq_accepted_iff.mp verdict)

/-- A record that is accepted, and with which nothing is wrong, becomes the entry of its path and of
its own properties. -/
theorem entry?_of_accepts (accepts : extraction.Accepts record path)
    (faultless : extraction.fault? capacity maxEntries record = none) :
    ∃ text, Entry.json extraction.blobs record.fields = .ok text ∧
      extraction.entry? record = some ⟨path, Utf8.encode text⟩ := by
  have verdict := judge_eq_accepted_iff.mpr accepts
  cases bytes : extraction.payload path record with
  | error cause =>
    rw [fault?_of_error verdict bytes] at faultless
    cases faultless
  | ok payload =>
    unfold Extraction.payload Entry.encode at bytes
    split at bytes
    · cases bytes
    · cases json : Entry.json extraction.blobs record.fields with
      | error cause =>
        rw [json] at bytes
        cases bytes
      | ok text =>
        refine ⟨text, rfl, ?_⟩
        simp only [ entry?, verdict, json, Except.toOption, Option.map_some]

theorem judge_of_fault {fault : Record.IdFault} (located : record.locate = .error fault) :
    extraction.judge record = .malformed fault := by
  simp only [judge, located]

end Extraction

end TreeExport

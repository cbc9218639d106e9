import TreeExport.Proofs.Dump.Entries

/-!
# Records one after the other

What records come to does not depend on when they are received or what else goes on.  The first of
them that has a flaw (`Extraction.flaw?`) is a failure; if there is none, their entries are packed
into batches, one after the other, and a new batch is begun only with an entry that has no place in
the one before (`pack`).  These batches hold all entries whole and in order
(`Extraction.isPackingOf_pack`).
-/

namespace TreeExport

/-- The entry can be put into an empty batch. -/
structure StoredEntry.Fits (capacity : Nat) (entry : StoredEntry) : Prop where
  barless : entry.IsBarless
  short : entry.payload.length < Length.limit
  room : Length.width + entry.payload.length ≤ capacity

variable {capacity maxEntries : Nat} {entries group : List StoredEntry}
  {batch : EntryBatch} {entry : StoredEntry}

/-! ## One batch -/

namespace EntryBatch

theorem hasSpace_empty (positive : 0 < maxEntries) {length : Nat} :
    (empty capacity maxEntries).hasSpace length = true ↔ Length.width + length ≤ capacity := by
  simp only [hasSpace, EntryBatch.length, size, empty, List.length_nil, Nat.zero_add,
    Bool.and_eq_true, decide_eq_true_eq, positive, true_and]

/-- The batch that an entry begins. -/
def begin (capacity maxEntries : Nat) (entry : StoredEntry) : EntryBatch :=
  (empty capacity maxEntries).push entry.path entry.payload

theorem packs_begin (maxEntries : Nat) (fits : entry.Fits capacity) :
    Packs capacity maxEntries (begin capacity maxEntries entry) [entry] := by
  refine Packs.empty.push fits.barless fits.short ?_
  simpa only [size, empty, List.length_nil, Nat.zero_add] using fits.room

namespace Packs

theorem length_eq (packs : Packs capacity maxEntries batch group) : batch.length = group.length :=
  packs.forall₂.length_eq

theorem room_of_hasSpace (packs : Packs capacity maxEntries batch group) {length : Nat}
    (space : batch.hasSpace length = true) : Length.width + length ≤ capacity := by
  simp only [hasSpace, Bool.and_eq_true, decide_eq_true_eq, packs.capacity_eq] at space
  omega

/-- An entry for which there is space is packed behind the others. -/
theorem push_of_hasSpace (packs : Packs capacity maxEntries batch group)
    (fits : entry.Fits capacity) (space : batch.hasSpace entry.payload.length = true) :
    Packs capacity maxEntries (batch.push entry.path entry.payload) (group ++ [entry]) ∧
      (group ++ [entry]).length ≤ maxEntries := by
  simp only [hasSpace, Bool.and_eq_true, decide_eq_true_eq, packs.capacity_eq, packs.maxEntries_eq,
    packs.length_eq] at space
  refine ⟨packs.push fits.barless fits.short space.2, ?_⟩
  rw [List.length_append]
  exact space.1

end Packs

end EntryBatch

/-! ## Batches in order -/

/-- What batches are that entries have been packed into, one after the other: each entry is whole in
one of them, none is empty or holds too much, and the entry that begins one of them had no place in
the one before. -/
structure IsPackingOf (capacity maxEntries : Nat) (entries : List StoredEntry)
    (batches : List EntryBatch) : Prop where
  whole : batches.flatMap EntryBatch.payloads =
    entries.map fun entry => (entry.path, .ok entry.payload)
  nonempty : ∀ batch ∈ batches, batch.isEmpty = false
  bounds : ∀ batch ∈ batches, batch.capacity = capacity ∧ batch.maxEntries = maxEntries
  length_le : ∀ batch ∈ batches, batch.length ≤ maxEntries
  size_le : ∀ batch ∈ batches, batch.size ≤ capacity
  greedy : batches.IsChain fun batch next => ∀ path payload,
    next.payloads.head? = some (path, .ok payload) → batch.hasSpace payload.length = false

theorem isChain_concat {α : Type} {R : α → α → Prop} {items : List α} {item : α}
    (chain : items.IsChain R) (linked : ∀ last ∈ items.getLast?, R last item) :
    (items ++ [item]).IsChain R := by
  induction chain with
  | nil => exact .singleton item
  | singleton last => exact .cons_cons (linked last rfl) (.singleton item)
  | @cons_cons first second rest link _ ih =>
    refine .cons_cons link (ih fun last isLast => linked last ?_)
    rwa [List.getLast?_cons_cons]

theorem isPackingOf_nil : IsPackingOf capacity maxEntries [] [] :=
  ⟨rfl, nofun, nofun, nofun, nofun, .nil⟩

/-- A batch that is packed is a packing behind others, if the first of its entries had no place in
the last of them. -/
theorem IsPackingOf.append {batches : List EntryBatch} {first : StoredEntry}
    (before : IsPackingOf capacity maxEntries entries batches)
    (packs : EntryBatch.Packs capacity maxEntries batch (first :: group))
    (few : (first :: group).length ≤ maxEntries)
    (full : ∀ last ∈ batches.getLast?, last.hasSpace first.payload.length = false) :
    IsPackingOf capacity maxEntries (entries ++ first :: group) (batches ++ [batch]) := by
  have both {p : EntryBatch → Prop} (early : ∀ other ∈ batches, p other) (late : p batch) :
      ∀ other ∈ batches ++ [batch], p other := by
    intro other member
    rcases List.mem_append.mp member with there | last
    · exact early other there
    · exact List.mem_singleton.mp last ▸ late
  refine ⟨?_, both before.nonempty ?_, both before.bounds ⟨packs.capacity_eq, packs.maxEntries_eq⟩,
    both before.length_le ?_, both before.size_le packs.size_le, ?_⟩
  · rw [List.flatMap_append, before.whole, List.flatMap_singleton, packs.payloads,
      List.map_append]
  · rw [← Bool.not_eq_true, packs.isEmpty_iff]
    exact List.cons_ne_nil _ _
  · rw [packs.length_eq]
    exact few
  · refine isChain_concat before.greedy fun last isLast path payload heads => ?_
    rw [packs.payloads] at heads
    cases heads
    exact full last isLast

/-! ## Packing -/

/-- The batches that are full, and the one that is being filled. -/
structure Packing where
  full : List EntryBatch := []
  current : Option EntryBatch := none

namespace Packing

/-- The batches, in order. -/
def batches (packing : Packing) : List EntryBatch :=
  packing.full ++ packing.current.toList

/-- Puts an entry behind the others, or into a new batch. -/
def add (capacity maxEntries : Nat) (packing : Packing) (entry : StoredEntry) : Packing :=
  match packing.current with
  | none => { packing with current := some (.begin capacity maxEntries entry) }
  | some batch =>
    if batch.hasSpace entry.payload.length then
      { packing with current := some (batch.push entry.path entry.payload) }
    else
      { full := packing.full ++ [batch], current := some (.begin capacity maxEntries entry) }

/-- The packing holds entries, and the last of them are in the batch that is being filled. -/
inductive Holds (capacity maxEntries : Nat) : Packing → List StoredEntry → Prop
  | nothing : Holds capacity maxEntries {} []
  | filling {full : List EntryBatch} {entries group : List StoredEntry} {batch : EntryBatch}
      {first : StoredEntry} (before : IsPackingOf capacity maxEntries entries full)
      (packs : EntryBatch.Packs capacity maxEntries batch (first :: group))
      (few : (first :: group).length ≤ maxEntries)
      (turn : ∀ last ∈ full.getLast?, last.hasSpace first.payload.length = false) :
      Holds capacity maxEntries ⟨full, some batch⟩ (entries ++ first :: group)

variable {packing : Packing}

namespace Holds

theorem isPackingOf (holds : Holds capacity maxEntries packing entries) :
    IsPackingOf capacity maxEntries entries packing.batches := by
  cases holds with
  | nothing => exact isPackingOf_nil
  | filling before packs few turn => exact before.append packs few turn

/-- The batch that is being filled is packed, and not empty. -/
theorem current (holds : Holds capacity maxEntries packing entries)
    (current : packing.current = some batch) :
    ∃ group, EntryBatch.Packs capacity maxEntries batch group ∧ group ≠ [] := by
  cases holds with
  | nothing => cases current
  | filling before packs few turn =>
    cases current
    exact ⟨_, packs, List.cons_ne_nil _ _⟩

/-- One entry more. -/
theorem add (holds : Holds capacity maxEntries packing entries) (positive : 0 < maxEntries)
    (fits : entry.Fits capacity) :
    Holds capacity maxEntries (packing.add capacity maxEntries entry) (entries ++ [entry]) := by
  have one : [entry].length ≤ maxEntries := positive
  cases holds with
  | nothing => exact .filling isPackingOf_nil (EntryBatch.packs_begin _ fits) one nofun
  | @filling full entries group batch first before packs few turn =>
    unfold Packing.add
    cases space : batch.hasSpace entry.payload.length with
    | true =>
      obtain ⟨pushed, enough⟩ := packs.push_of_hasSpace fits space
      simp only [space, if_true, List.append_assoc]
      exact .filling before pushed enough turn
    | false =>
      simp only [space, Bool.false_eq_true, if_false]
      refine .filling (before.append packs few turn) (EntryBatch.packs_begin _ fits) one ?_
      rintro last isLast
      obtain rfl : batch = last := by simpa using isLast
      exact space

end Holds

end Packing

/-- The batches that entries are packed into. -/
def pack (capacity maxEntries : Nat) (entries : List StoredEntry) : List EntryBatch :=
  (entries.foldl (Packing.add capacity maxEntries) {}).batches

/-- Any number of entries more. -/
theorem Packing.Holds.foldl {more : List StoredEntry} {packing : Packing}
    (holds : Holds capacity maxEntries packing entries) (positive : 0 < maxEntries)
    (fit : ∀ entry ∈ more, entry.Fits capacity) :
    Holds capacity maxEntries (more.foldl (Packing.add capacity maxEntries) packing)
      (entries ++ more) := by
  induction more generalizing entries packing with
  | nil => rwa [List.append_nil]
  | cons entry rest ih =>
    have one := holds.add positive (fit entry List.mem_cons_self)
    have all := ih one fun other member => fit other (List.mem_cons_of_mem _ member)
    rwa [List.append_assoc] at all

/-! ## Records one after the other -/

namespace Extraction

/-- What is wrong with a record where buffers have any capacity: its fault, or that the length of its
payload cannot be written. -/
def flaw? (extraction : Extraction) (capacity maxEntries : Nat) (record : Record) :
    Option Error :=
  match extraction.fault? capacity maxEntries record, extraction.entry? record with
  | some cause, _ => some cause
  | none, some entry =>
    if Length.limit ≤ entry.payload.length then
      some (EntryBatch.Fault.toError (.tooLong entry.path))
    else none
  | none, none => none

/-- Counts a record by its verdict, and its entry if it becomes one. -/
def count (extraction : Extraction) (statistics : Statistics) (record : Record) : Statistics :=
  let judged :=
    { statistics with processed := statistics.processed + 1 }.addVerdict (extraction.judge record)
  match extraction.entry? record with
  | some entry => judged.addAccepted entry.payload.length
  | none => judged

/-- The packing of the entries of records. -/
def packing (extraction : Extraction) (capacity maxEntries : Nat) (records : List Record) :
    Packing :=
  (records.filterMap extraction.entry?).foldl (Packing.add capacity maxEntries) {}

/-- The record is accepted, and its payload is that of an entry. -/
structure Makes (extraction : Extraction) (record : Record) (entry : StoredEntry) : Prop where
  verdict : extraction.judge record = .accepted entry.path
  bytes : extraction.payload entry.path record = .ok entry.payload
  becomes : extraction.entry? record = some entry
  barless : entry.IsBarless

variable {extraction : Extraction} {record : Record}

theorem makes_of_payload {path : String} {payload : Bytes}
    (verdict : extraction.judge record = .accepted path)
    (bytes : extraction.payload path record = .ok payload) :
    ∃ entry, extraction.Makes record entry ∧ entry.path = path ∧ entry.payload = payload := by
  obtain ⟨entry, becomes, rfl, rfl, barless⟩ := entry?_of_payload verdict bytes
  exact ⟨entry, ⟨verdict, bytes, becomes, barless⟩, rfl, rfl⟩

theorem flaw?_of_fault {cause : Error}
    (fault : extraction.fault? capacity maxEntries record = some cause) :
    extraction.flaw? capacity maxEntries record = some cause := by
  simp only [flaw?, fault]

theorem flaw?_eq_none (wellFormed : ∀ fault, extraction.judge record ≠ .malformed fault)
    (unwanted : ∀ path, extraction.judge record ≠ .accepted path) :
    extraction.flaw? capacity maxEntries record = none := by
  simp only [flaw?, fault?_eq_none wellFormed unwanted, entry?_eq_none unwanted]

/-- Whether an entry is too large does not depend on what is in any buffer. -/
theorem Makes.flaw?_of_large (makes : extraction.Makes record entry)
    (large : capacity < Length.width + entry.payload.length) :
    extraction.flaw? capacity maxEntries record =
      some (Worker.oversized entry.path entry.payload (.empty capacity maxEntries)) :=
  flaw?_of_fault (fault?_of_long makes.verdict makes.bytes large)

theorem Makes.flaw?_of_room (makes : extraction.Makes record entry)
    (room : Length.width + entry.payload.length ≤ capacity) :
    extraction.flaw? capacity maxEntries record =
      if Length.limit ≤ entry.payload.length then
        some (EntryBatch.Fault.toError (.tooLong entry.path))
      else none := by
  simp only [flaw?, fault?_of_short makes.verdict makes.bytes room, makes.becomes]

theorem Makes.flaw?_of_fits (makes : extraction.Makes record entry)
    (fits : entry.Fits capacity) : extraction.flaw? capacity maxEntries record = none := by
  rw [makes.flaw?_of_room fits.room, if_neg (Nat.not_le.mpr fits.short)]

/-- The entry of a record without flaw can be put into an empty batch. -/
theorem fits_of_flaw?_eq_none (flawless : extraction.flaw? capacity maxEntries record = none)
    (found : extraction.entry? record = some entry) : entry.Fits capacity := by
  have faultless : extraction.fault? capacity maxEntries record = none := by
    cases fault : extraction.fault? capacity maxEntries record with
    | none => rfl
    | some cause =>
      rw [flaw?_of_fault fault] at flawless
      cases flawless
  cases verdict : extraction.judge record with
  | accepted path =>
    cases bytes : extraction.payload path record with
    | error cause =>
      rw [fault?_of_error verdict bytes] at faultless
      cases faultless
    | ok payload =>
      obtain ⟨other, makes, rfl, rfl⟩ := makes_of_payload verdict bytes
      obtain rfl : other = entry := Option.some.inj (makes.becomes.symm.trans found)
      have room : Length.width + other.payload.length ≤ capacity := by
        refine Nat.not_lt.mp fun large => ?_
        rw [fault?_of_long verdict bytes large] at faultless
        cases faultless
      rw [makes.flaw?_of_room room] at flawless
      refine ⟨makes.barless, Nat.not_le.mp fun long => ?_, room⟩
      rw [if_pos long] at flawless
      cases flawless
  | _ => simp only [ entry?, verdict, reduceCtorEq] at found

theorem packing_append_of_some (found : extraction.entry? record = some entry)
    (records : List Record) :
    extraction.packing capacity maxEntries (records ++ [record]) =
      (extraction.packing capacity maxEntries records).add capacity maxEntries entry := by
  unfold packing
  rw [List.filterMap_append, List.foldl_append]
  simp only [List.filterMap_cons, found, List.filterMap_nil, List.foldl_cons, List.foldl_nil]

theorem packing_append_of_none (nothing : extraction.entry? record = none)
    (records : List Record) :
    extraction.packing capacity maxEntries (records ++ [record]) =
      extraction.packing capacity maxEntries records := by
  unfold packing
  rw [List.filterMap_append, List.foldl_append]
  simp only [List.filterMap_cons, nothing, List.filterMap_nil, List.foldl_nil]

theorem holds_packing {records : List Record} (positive : 0 < maxEntries)
    (flawless : ∀ record ∈ records, extraction.flaw? capacity maxEntries record = none) :
    (extraction.packing capacity maxEntries records).Holds capacity maxEntries
      (records.filterMap extraction.entry?) := by
  refine Packing.Holds.nothing.foldl positive fun entry member => ?_
  obtain ⟨record, there, found⟩ := List.mem_filterMap.mp member
  exact fits_of_flaw?_eq_none (flawless record there) found

/-- The entries of records without flaw are packed as they should be. -/
theorem isPackingOf_pack {records : List Record} (positive : 0 < maxEntries)
    (flawless : ∀ record ∈ records, extraction.flaw? capacity maxEntries record = none) :
    IsPackingOf capacity maxEntries (records.filterMap extraction.entry?)
      (pack capacity maxEntries (records.filterMap extraction.entry?)) :=
  (holds_packing positive flawless).isPackingOf

end Extraction

end TreeExport

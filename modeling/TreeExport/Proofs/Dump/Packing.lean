import TreeExport.Dump.Storer
import TreeExport.Dump.Worker
import TreeExport.Proofs.EntryBatch
import TreeExport.Proofs.Store.Reading

/-!
# Packing entries

A batch that is filled by pushing payloads gives back the entries that were pushed
(`Packs.storedEntries`), and after its keys are sorted it gives back the stable sort of them
(`Packs.storedEntries_sort`).
-/

namespace TreeExport

/-! ## Payloads -/

namespace StoredEntry

/-- The payload that carries an entry to the store. -/
def payload (entry : StoredEntry) : Bytes :=
  Utf8.encode entry.path ++ Entry.delimiter :: entry.data

/-- The path holds no bar, so the payload can be read back. -/
def IsBarless (entry : StoredEntry) : Prop :=
  '|' ∉ entry.path.toList

theorem length_payload (entry : StoredEntry) :
    entry.payload.length = Utf8.size entry.path + 1 + entry.data.length := by
  simp only [payload, List.length_append, Utf8.length_encode, List.length_cons]
  omega

/-- An entry whose payload has a length that can be written has such lengths itself. -/
theorem isShort_of_payload {entry : StoredEntry} (small : entry.payload.length < Length.limit) :
    entry.IsShort := by
  rw [length_payload] at small
  exact ⟨by omega, by omega⟩

theorem decode_payload {entry : StoredEntry} (barless : entry.IsBarless) :
    Entry.decode entry.payload = .ok (entry.path, entry.data) := by
  have absent : Entry.delimiter ∉ Utf8.encode entry.path :=
    Utf8.notMem_encode (c := '|') (by decide) (by decide) barless
  have before : ∀ b ∈ Utf8.encode entry.path, (b != Entry.delimiter) = true := by
    intro b member
    rw [bne_iff_ne]
    exact fun same => absent (same ▸ member)
  have front : entry.payload.takeWhile (· != Entry.delimiter) = Utf8.encode entry.path := by
    rw [payload, List.takeWhile_append_of_pos before, List.takeWhile_cons_of_neg (by simp),
      List.append_nil]
  have back : entry.payload.dropWhile (· != Entry.delimiter) = Entry.delimiter :: entry.data := by
    rw [payload, List.dropWhile_append_of_pos before, List.dropWhile_cons_of_neg (by simp)]
  unfold Entry.decode
  rw [back, front, Utf8.decode_encode]

end StoredEntry

namespace EntryBatch

/-- The payloads that a batch gives back, each behind its path, in the order of its keys. -/
def payloads (batch : EntryBatch) : List (String × Except Fault Bytes) :=
  batch.keys.map fun key => (key.path, batch.payloadAt key.offset)

/-- The entries that a batch gives back, in the order of its keys. -/
def contents (batch : EntryBatch) : List StoredEntry :=
  batch.storedEntries.toOption.getD []

/-- The batch has been filled with entries, one after the other. -/
inductive Packs (capacity maxEntries : Nat) : EntryBatch → List StoredEntry → Prop
  | empty : Packs capacity maxEntries (.empty capacity maxEntries) []
  | push {batch : EntryBatch} {entries : List StoredEntry} {entry : StoredEntry}
      (packs : Packs capacity maxEntries batch entries) (barless : entry.IsBarless)
      (small : entry.payload.length < Length.limit)
      (fits : batch.size + Length.width + entry.payload.length ≤ capacity) :
      Packs capacity maxEntries (batch.push entry.path entry.payload) (entries ++ [entry])

variable {capacity maxEntries : Nat} {batch : EntryBatch} {entries : List StoredEntry}

@[simp] theorem keys_push (batch : EntryBatch) (path : String) (payload : Bytes) :
    (batch.push path payload).keys = batch.keys ++ [⟨path, batch.size⟩] := rfl

/-! ## Reading entries back -/

theorem storedEntry_push_of_ok {key : SortKey} {found : StoredEntry} (path : String)
    (payload : Bytes) (there : batch.storedEntry key = .ok found) :
    (batch.push path payload).storedEntry key = .ok found := by
  unfold storedEntry at *
  cases read : batch.payloadAt key.offset with
  | error fault =>
    rw [read] at there
    cases there
  | ok bytes =>
    rw [read] at there
    rw [payloadAt_push_of_ok path payload read]
    exact there

theorem storedEntry_push_self {entry : StoredEntry} (barless : entry.IsBarless)
    (small : entry.payload.length < Length.limit) :
    (batch.push entry.path entry.payload).storedEntry ⟨entry.path, batch.size⟩ = .ok entry := by
  unfold storedEntry
  rw [payloadAt_push_self entry.path small]
  simp only [mapError_ok, bind, Except.bind, StoredEntry.decode_payload barless, pure,
    Except.pure]

/-! ## Packed batches -/

namespace Packs

theorem capacity_eq (packs : Packs capacity maxEntries batch entries) :
    batch.capacity = capacity := by
  induction packs with
  | empty => rfl
  | push _ _ _ _ ih => exact ih

theorem maxEntries_eq (packs : Packs capacity maxEntries batch entries) :
    batch.maxEntries = maxEntries := by
  induction packs with
  | empty => rfl
  | push _ _ _ _ ih => exact ih

theorem size_le (packs : Packs capacity maxEntries batch entries) : batch.size ≤ capacity := by
  cases packs with
  | empty => exact Nat.zero_le _
  | push _ _ _ fits =>
    simp only [size, EntryBatch.push, List.length_append, Length.length_encode] at fits ⊢
    omega

theorem isShort (packs : Packs capacity maxEntries batch entries) :
    ∀ entry ∈ entries, entry.IsShort := by
  induction packs with
  | empty => exact fun _ none => absurd none List.not_mem_nil
  | push _ _ small _ ih =>
    intro entry member
    rcases List.mem_append.mp member with early | last
    · exact ih entry early
    · exact List.mem_singleton.mp last ▸ StoredEntry.isShort_of_payload small

/-- Every key leads to its entry. -/
theorem forall₂ (packs : Packs capacity maxEntries batch entries) :
    List.Forall₂ (fun key entry => batch.storedEntry key = .ok entry) batch.keys entries := by
  induction packs with
  | empty => exact .nil
  | push packs barless small _ ih =>
    refine List.rel_append (ih.imp fun key entry there => ?_) (.cons ?_ .nil)
    · exact storedEntry_push_of_ok _ _ there
    · exact storedEntry_push_self barless small

/-- Every key leads to its payload. -/
theorem payloads (packs : Packs capacity maxEntries batch entries) :
    batch.payloads = entries.map fun entry => (entry.path, .ok entry.payload) := by
  induction packs with
  | empty => rfl
  | @push batch entries entry _ _ small _ ih =>
    -- the keys that were there before lead where they did
    have before : batch.keys.map (fun key => (key.path,
        (batch.push entry.path entry.payload).payloadAt key.offset)) = batch.payloads := by
      refine List.map_congr_left fun key member => ?_
      have listed : (key.path, batch.payloadAt key.offset) ∈ batch.payloads :=
        List.mem_map_of_mem member
      rw [ih] at listed
      obtain ⟨other, -, same⟩ := List.mem_map.mp listed
      obtain ⟨-, read⟩ := Prod.mk.inj same
      rw [← read, payloadAt_push_of_ok _ _ read.symm]
    rw [List.map_append, ← ih, ← before]
    simp only [EntryBatch.payloads, keys_push, List.map_append, List.map_cons, List.map_nil,
      payloadAt_push_self _ small]

theorem isEmpty_iff (packs : Packs capacity maxEntries batch entries) :
    batch.isEmpty = true ↔ entries = [] := by
  rw [isEmpty, List.isEmpty_iff, ← List.length_eq_zero_iff, packs.forall₂.length_eq,
    List.length_eq_zero_iff]

theorem eq_empty (packs : Packs capacity maxEntries batch entries) (nothing : entries = []) :
    batch = .empty capacity maxEntries := by
  cases packs with
  | empty => rfl
  | push => exact absurd nothing (List.append_ne_nil_of_right_ne_nil _ (List.cons_ne_nil _ _))

theorem clear (packs : Packs capacity maxEntries batch entries) :
    batch.clear = .empty capacity maxEntries := by
  rw [EntryBatch.clear, packs.capacity_eq, packs.maxEntries_eq]
  rfl

end Packs

theorem mapM_of_forall₂ {α β ε : Type} {f : α → Except ε β} {items : List α} {results : List β}
    (each : List.Forall₂ (fun item result => f item = .ok result) items results) :
    items.mapM f = .ok results := by
  induction each with
  | nil => rfl
  | cons first _ ih =>
    rw [List.mapM_cons, first]
    simp only [bind, Except.bind, ih, pure, Except.pure]

theorem Packs.storedEntries (packs : Packs capacity maxEntries batch entries) :
    batch.storedEntries = .ok entries :=
  mapM_of_forall₂ packs.forall₂

theorem Packs.contents (packs : Packs capacity maxEntries batch entries) :
    batch.contents = entries := by
  rw [EntryBatch.contents, packs.storedEntries]
  rfl

/-- The entry that a key leads to, or one without data if it leads to none. -/
private def leadsTo (batch : EntryBatch) (key : SortKey) : StoredEntry :=
  ⟨key.path, ((batch.storedEntry key).toOption.map StoredEntry.data).getD []⟩

private theorem eq_leadsTo {key : SortKey} {entry : StoredEntry}
    (there : batch.storedEntry key = .ok entry) : batch.leadsTo key = entry := by
  have path : entry.path = key.path := by
    unfold storedEntry at there
    obtain ⟨payload, _, there⟩ := StoredEntry.exists_of_bind there
    obtain ⟨parts, _, there⟩ := StoredEntry.exists_of_bind there
    cases there
    rfl
  rw [leadsTo, there, ← path]
  rfl

private theorem storedEntry_of_mem {keys : List SortKey}
    (each : List.Forall₂ (fun key entry => batch.storedEntry key = .ok entry) keys entries) :
    ∀ key ∈ keys, batch.storedEntry key = .ok (batch.leadsTo key) := by
  induction each with
  | nil => exact fun _ none => absurd none List.not_mem_nil
  | cons first _ ih =>
    intro key member
    rcases List.mem_cons.mp member with rfl | later
    · rw [eq_leadsTo first]
      exact first
    · exact ih key later

private theorem map_leadsTo {keys : List SortKey}
    (each : List.Forall₂ (fun key entry => batch.storedEntry key = .ok entry) keys entries) :
    keys.map batch.leadsTo = entries := by
  induction each with
  | nil => rfl
  | cons first _ ih => rw [List.map_cons, eq_leadsTo first, ih]

/-- After its keys are sorted a batch gives back the stable sort of its entries. -/
theorem Packs.storedEntries_sort (packs : Packs capacity maxEntries batch entries) :
    batch.sort.storedEntries = .ok (stableSort StoredEntry.path entries) := by
  have sorted : (stableSort SortKey.path batch.keys).map batch.leadsTo =
      stableSort StoredEntry.path entries := by
    have keeps : ∀ key, (batch.leadsTo key).path = key.path := fun _ => rfl
    rw [← map_leadsTo packs.forall₂]
    exact stableSort_map batch.leadsTo keeps batch.keys
  rw [← sorted]
  refine mapM_of_forall₂ (List.forall₂_map_right_iff.mpr (List.forall₂_same.mpr fun key member => ?_))
  exact storedEntry_of_mem packs.forall₂ key (mem_stableSort.mp member)

end EntryBatch

end TreeExport

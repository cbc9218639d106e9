import Mathlib.Data.List.TakeWhile
import TreeExport.Proofs.Dump.Packing

/-!
# What a payload says

A payload is the bytes of a path without a bar, a bar, and any bytes at all.  It is read as the path
before its first bar and the bytes after it, and as nothing else (`Entry.decode_eq_ok_iff`); so it can
be read just where it has a bar and what stands before the first one is UTF-8
(`Entry.exists_decode_iff`).
-/

namespace TreeExport

namespace Utf8

/-- Bytes are read as a text just where they are UTF-8. -/
theorem exists_decode_iff {bytes : Bytes} :
    (∃ text, decode bytes = .ok text) ↔ bytes.toByteArray.IsValidUTF8 := by
  constructor
  · intro read
    rcases read with ⟨text, read⟩
    rw [← encode_of_decode read]
    exact .intro text.toList rfl
  · intro valid
    rcases valid with ⟨chars, same⟩
    have bytes_eq : bytes = encode (String.ofList chars) := by
      have data := congrArg (Array.toList ∘ ByteArray.data) same
      rw [encode, String.toList_ofList]
      simpa only [Function.comp_apply, List.utf8Encode, List.data_toByteArray] using data
    exact ⟨_, by rw [bytes_eq, decode_encode]⟩

end Utf8

namespace Entry

variable {payload json : Bytes} {path : String}

/-! ## The first bar -/

/-- A list of bytes with a bar is what stands before the first one, the bar, and what follows it. -/
theorem exists_dropWhile_eq (bar : delimiter ∈ payload) :
    ∃ rest, payload.dropWhile (· != delimiter) = delimiter :: rest ∧
      payload = payload.takeWhile (· != delimiter) ++ delimiter :: rest := by
  cases behind : payload.dropWhile (· != delimiter) with
  | nil =>
    have none := List.dropWhile_eq_nil_iff.mp behind delimiter bar
    exact absurd none (by simp)
  | cons byte rest =>
    have first := List.head?_dropWhile_not (· != delimiter) payload
    rw [behind, List.head?_cons] at first
    have same : byte = delimiter := by simpa using first
    rw [same] at behind
    refine ⟨rest, by rw [same], ?_⟩
    rw [← behind, List.takeWhile_append_dropWhile]

theorem notMem_takeWhile (payload : Bytes) :
    delimiter ∉ payload.takeWhile (· != delimiter) := by
  intro member
  have other := List.mem_takeWhile_imp member
  simp at other

/-- A text holds a bar if its bytes do. -/
theorem mem_of_delimiter_mem (bar : delimiter ∈ Utf8.encode path) : '|' ∈ path.toList := by
  apply Classical.byContradiction
  intro absent
  exact Utf8.notMem_encode (c := '|') (by decide) (by decide) absent bar

/-- The bytes of a text hold a bar if the text does. -/
theorem delimiter_mem_of_mem (bar : '|' ∈ path.toList) : delimiter ∈ Utf8.encode path :=
  List.mem_flatMap.mpr ⟨'|', bar, by decide⟩

theorem holdsDelimiter_iff : holdsDelimiter path = true ↔ '|' ∈ path.toList :=
  List.contains_iff_mem

/-! ## Reading -/

/-- What is read as a path and JSON is the path, a bar and the JSON, and the path has no bar. -/
theorem eq_of_decode (read : decode payload = .ok (path, json)) :
    payload = Utf8.encode path ++ delimiter :: json ∧ '|' ∉ path.toList := by
  unfold decode at read
  split at read
  · cases read
  next byte rest behind =>
    have bar : delimiter ∈ payload := by
      apply Classical.byContradiction
      intro none
      have nothing : payload.dropWhile (· != delimiter) = [] := by
        refine List.dropWhile_eq_nil_iff.mpr fun other member => ?_
        rw [bne_iff_ne]
        rintro rfl
        exact none member
      rw [nothing] at behind
      cases behind
    rcases exists_dropWhile_eq bar with ⟨after, behind', split⟩
    cases behind.symm.trans behind'
    split at read
    · cases read
    next text front =>
      cases read
      have bytes := Utf8.encode_of_decode front
      refine ⟨bytes ▸ split, fun bar => ?_⟩
      apply notMem_takeWhile payload
      rw [← bytes]
      exact delimiter_mem_of_mem bar

/-- A payload is read as the path and the JSON that it is made of. -/
theorem decode_eq_ok_iff : decode payload = .ok (path, json) ↔
    payload = Utf8.encode path ++ delimiter :: json ∧ '|' ∉ path.toList := by
  constructor
  · exact eq_of_decode
  · intro made
    have barless : StoredEntry.IsBarless ⟨path, json⟩ := made.2
    have read := StoredEntry.decode_payload barless
    rw [StoredEntry.payload] at read
    rw [made.1]
    exact read

/-- A payload can be read just where it has a bar and what stands before the first one is UTF-8. -/
theorem exists_decode_iff : (∃ parts, decode payload = .ok parts) ↔
    delimiter ∈ payload ∧ (payload.takeWhile (· != delimiter)).toByteArray.IsValidUTF8 := by
  constructor
  · intro read
    rcases read with ⟨⟨path, json⟩, read⟩
    rcases eq_of_decode read with ⟨made, noBar⟩
    have absent : ∀ byte ∈ Utf8.encode path, (byte != delimiter) = true := by
      intro byte member
      rw [bne_iff_ne]
      rintro rfl
      exact noBar (mem_of_delimiter_mem member)
    have front : payload.takeWhile (· != delimiter) = Utf8.encode path := by
      rw [made, List.takeWhile_append_of_pos absent, List.takeWhile_cons_of_neg (by simp),
        List.append_nil]
    rw [front, ← Utf8.exists_decode_iff]
    refine ⟨?_, path, Utf8.decode_encode path⟩
    rw [made]
    exact List.mem_append_right _ List.mem_cons_self
  · rintro ⟨bar, valid⟩
    rcases exists_dropWhile_eq bar with ⟨json, -, split⟩
    rcases Utf8.exists_decode_iff.mpr valid with ⟨path, front⟩
    have bytes := Utf8.encode_of_decode front
    refine ⟨(path, json), decode_eq_ok_iff.mpr ⟨bytes ▸ split, fun bar => ?_⟩⟩
    apply notMem_takeWhile payload
    rw [← bytes]
    exact delimiter_mem_of_mem bar

/-! ## Writing -/

variable {blobs : BlobResolver} {fields : List (String × Json)}

/-- A payload that is written is read as its path and the bytes of the JSON text. -/
theorem decode_of_encode (written : encode blobs path fields = .ok payload) :
    ∃ text, Entry.json blobs fields = .ok text ∧
      decode payload = .ok (path, Utf8.encode text) := by
  unfold encode at written
  split at written
  · cases written
  next noBar =>
    cases made : Entry.json blobs fields with
    | error cause =>
      rw [made] at written
      cases written
    | ok text =>
      rw [made] at written
      cases written
      exact ⟨text, rfl, decode_eq_ok_iff.mpr ⟨rfl, mt holdsDelimiter_iff.mpr noBar⟩⟩

/-- No payload is written for a path with a bar. -/
theorem encode_of_bar (bar : '|' ∈ path.toList) :
    encode blobs path fields =
      .error (.validation s!"path '{path}' contains the entry delimiter '|'") :=
  if_pos (holdsDelimiter_iff.mpr bar)

end Entry

end TreeExport

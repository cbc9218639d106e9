import TreeExport.Proofs.Json.Texts
import TreeExport.Proofs.Moment.Written
import TreeExport.Proofs.Store.Opening

/-!
# Manifests are read back

`Manifest.read?_render`: a manifest whose counts are numbers of their sizes and whose time a clock
can show is read from its text.  So a published store can be opened (`Store.Publishes.opens`).
-/

namespace TreeExport

open Json (Piece Written)

namespace Manifest

/-- The manifest can be written so that it is read back: its counts have their sizes, and its time
is one that a clock can show. -/
structure IsLegible (manifest : Manifest) : Prop where
  version : manifest.version < 2 ^ 32
  entries : manifest.entries < 2 ^ 64
  segments : manifest.segments < 2 ^ 64
  created : manifest.created.IsOfClock

variable {manifest : Manifest}

/-- All numbers in a manifest are whole. -/
theorem isWhole_toJson (manifest : Manifest) : manifest.toJson.IsWhole := by
  refine .object (List.forall_mem_append.mpr ⟨?_, fun field member => ?_⟩)
  · simp only [List.forall_mem_cons, List.not_mem_nil, false_implies, implies_true, and_true]
    exact ⟨.number _, .number _, .number _, .string _, .string _⟩
  · rcases Option.map_eq_some_iff.mp (Option.mem_toList.mp member) with ⟨label, -, rfl⟩
    exact .string label

theorem named?_written (fields : List (String × Json)) :
    named? (Json.writtenFields fields) =
      some (fields.map fun field => (field.1, field.2.written)) := by
  induction fields with
  | nil => rfl
  | cons field fields ih =>
    rcases field with ⟨name, value⟩
    rw [named?] at ih ⊢
    simp only [Json.writtenFields, List.map_cons, List.mapM_cons, Piece.text?_ofText, ih]
    rfl

/-- A number of the bits that are asked for, and of no more than 64, is read back. -/
theorem word?_written {bits n : Nat} (small : n < 2 ^ bits) (narrow : bits ≤ 64) :
    word? bits (Json.number (.whole n)).written = some n := by
  have fits : n ≤ Json.Numeral.maxWord :=
    Nat.le_pred_of_lt (Nat.lt_of_lt_of_le small (Nat.pow_le_pow_right (by decide) narrow))
  have inRange : Json.Numeral.IsInRange n := by
    unfold Json.Numeral.IsInRange
    omega
  rw [Json.written, Json.Number.numeral_whole, word?, Json.Numeral.value?_ofInt inRange]
  exact if_pos small

theorem text?_written (s : String) : text? (Json.string s).written = some s :=
  Piece.text?_ofText s

theorem label?_written (s : String) : label? (Json.string s).written = some (some s) := by
  change (text? (Json.string s).written).map some = some (some s)
  rw [text?_written]
  rfl

theorem field?_of_filter {name : String} {fields : List (String × Written)} {value : Written}
    (found : fields.filter (·.1 == name) = [(name, value)]) :
    field? name fields = some (some value) := by
  rw [field?, found]

/-- The fields of an object are looked up by their names. -/
theorem ofWritten?_object {raw : List (List Piece × Written)} {fields : List (String × Written)}
    {version entries segments digest created : Written} {checkpoint : Option Written}
    (named : named? raw = some fields)
    (first : field? "format_version" fields = some (some version))
    (second : field? "entry_count" fields = some (some entries))
    (third : field? "segments_merged" fields = some (some segments))
    (fourth : field? "sha256" fields = some (some digest))
    (fifth : field? "created_at" fields = some (some created))
    (last : field? "checkpoint" fields = some checkpoint) :
    ofWritten? (.object raw) = ofFields? version entries segments digest created checkpoint := by
  rw [ofWritten?, named]
  dsimp only [Option.bind_eq_bind, Option.bind_some]
  rw [first, second, third, fourth, fifth, last]
  rfl

theorem ofFields?_written (legible : manifest.IsLegible) :
    ofFields? (Json.number (.whole manifest.version)).written
      (Json.number (.whole manifest.entries)).written
      (Json.number (.whole manifest.segments)).written (Json.string manifest.digest).written
      (Json.string manifest.created.render).written
      (manifest.checkpoint.map fun label => (Json.string label).written) = some manifest := by
  have label : ((manifest.checkpoint.map fun label => (Json.string label).written).map
      label?).getD (some none) = some manifest.checkpoint := by
    cases manifest.checkpoint with
    | none => rfl
    | some label => exact label?_written label
  rw [ofFields?, word?_written legible.version (by decide),
    word?_written legible.entries (Nat.le_refl _), word?_written legible.segments (Nat.le_refl _),
    text?_written, text?_written, label]
  dsimp only [Option.bind_eq_bind, Option.bind_some]
  rw [Moment.read?_render legible.created]
  rfl

/-- A manifest is read from its text. -/
theorem read?_render (legible : manifest.IsLegible) : read? manifest.render = some manifest := by
  rw [read?, render, Written.read?_pretty manifest.isWhole_toJson, Option.bind_some, toJson,
    Json.written]
  refine Eq.trans ?_ (ofFields?_written legible)
  refine ofWritten?_object (named?_written _) (field?_of_filter ?_) (field?_of_filter ?_)
    (field?_of_filter ?_) (field?_of_filter ?_) (field?_of_filter ?_) ?_
  all_goals
    cases manifest.checkpoint with
    | none => rfl
    | some label => rfl

/-! ## Manifests of stores -/

/-- The manifest is one of a store of some entries: of the version that is written, and with the
count and the digest of the entries.  No segment that was merged was empty. -/
structure Describes (manifest : Manifest) (entries : List StoredEntry) : Prop where
  version : manifest.version = currentVersion
  count : manifest.entries = entries.length
  segments : manifest.segments ≤ entries.length
  digest : manifest.digest = Sha256.hash (StoredEntry.encodeAll entries)

/-- The manifest of a store of no more entries than can be counted is read back. -/
theorem Describes.isLegible {entries : List StoredEntry} (describes : manifest.Describes entries)
    (few : entries.length < 2 ^ 64) (shown : manifest.created.IsOfClock) : manifest.IsLegible where
  version := by rw [describes.version]; decide
  entries := describes.count ▸ few
  segments := Nat.lt_of_le_of_lt describes.segments few
  created := shown

end Manifest

namespace Store

theorem length_le_of_nonempty {runs : List (List StoredEntry)} (nonempty : ∀ run ∈ runs, run ≠ []) :
    runs.length ≤ runs.flatten.length := by
  induction runs with
  | nil => exact Nat.le_refl _
  | cons run runs ih =>
    have one := List.length_pos_iff.mpr (nonempty run List.mem_cons_self)
    have rest := ih fun other member => nonempty other (List.mem_cons_of_mem _ member)
    rw [List.flatten_cons, List.length_append, List.length_cons]
    omega

theorem Writer.Keeps.describes {writer : Writer} {files : Files} {runs : List (List StoredEntry)}
    (keeps : writer.Keeps files runs) (time : Moment) :
    (writer.manifestAt time runs).Describes (stableSort StoredEntry.path runs.flatten) where
  version := rfl
  count := (length_stableSort ..).symm
  segments := by
    rw [length_stableSort]
    exact length_le_of_nonempty keeps.nonempty
  digest := rfl

variable {time : Moment} {files : Files} {directory : String} {manifest : Manifest}
  {entries : List StoredEntry}

theorem runOn_readText {path text : String}
    (there : files.openAt path = .ok (.file (Utf8.encode text))) :
    (FileTask.readText path).runOn time files = (.ok text, files) := by
  rw [FileTask.readText, FileTask.runOn_bind_of_ok (FileTask.runOn_readBytes there),
    Utf8.decode_encode]
  rfl

/-- A published store is opened, and shows its manifest. -/
theorem Publishes.opens (publishes : Publishes files directory manifest entries)
    (legible : manifest.IsLegible) (describes : manifest.Describes entries) :
    (Reader.openAt directory).runOn time files = (.ok ⟨directory, manifest⟩, files) := by
  rw [Reader.openAt, FileTask.runOn_bind_of_ok publishes.isPublished]
  change (FileTask.readText (manifestPath directory) >>= _).runOn time files = _
  rw [FileTask.runOn_bind_of_ok (runOn_readText publishes.openAt_manifest),
    Manifest.read?_render legible]
  have supported : ¬ Manifest.currentVersion < manifest.version :=
    Nat.not_lt.mpr (Nat.le_of_eq describes.version)
  simp only [supported, if_false]
  rfl

/-- A published store is found to hold what its digest says. -/
theorem Publishes.verifies (publishes : Publishes files directory manifest entries)
    (describes : manifest.Describes entries) :
    (Reader.verify ⟨directory, manifest⟩).runOn time files = (.ok (), files) := by
  rw [Reader.verify]
  change (FileTask.readBytes (dataPath directory) >>= _).runOn time files = _
  rw [FileTask.runOn_bind_of_ok (FileTask.runOn_readBytes publishes.openAt_data)]
  simp only [describes.digest, ne_eq, not_true_eq_false, if_false]
  rfl

end Store

end TreeExport

import TreeExport.Proofs.Json.Meaning
import TreeExport.Record.Reader

/-!
# Records are read back

A record is read from an object: the typed fields go where they belong, and every other one stands
under its key (`fields_of_read?`).  If all its numbers are whole, the record that was read is read
again from the text that it is written as (`IsLegible.read?_compact`).
-/

namespace TreeExport.Record

open Json (Piece Written)

/-- The names of the fields that every record may have. -/
def typedKeys : List String := ["_id", "_path", "_deleted"]

/-- The field of the object is not one of those that every record may have. -/
def isOrdinary (member : List Piece × Written) : Bool :=
  (Piece.text? member.1).all fun key => !typedKeys.contains key

theorem isOrdinary_iff {member : List Piece × Written} {key : String}
    (named : Piece.text? member.1 = some key) : isOrdinary member = true ↔ key ∉ typedKeys := by
  rw [isOrdinary, named, Option.all_some, Bool.not_eq_true', List.contains_eq_mem,
    decide_eq_false_iff_not]

namespace Draft

variable {draft next : Draft} {members : List (List Piece × Written)} {key : String}
  {value : Written}

/-! ## Taking up fields -/

/-- A field that is not typed is put under its key. -/
theorem add?_of_ordinary (ordinary : key ∉ typedKeys) :
    draft.add? key value = (value.valueAt? 1).map fun json =>
      { draft with fields := Keyed.insert key json draft.fields } := by
  simp only [typedKeys, List.mem_cons, List.not_mem_nil, or_false, not_or] at ordinary
  unfold add?
  rw [if_neg ordinary.1, if_neg ordinary.2.1, if_neg ordinary.2.2]
  cases value.valueAt? 1 <;> rfl

/-- A typed field is not put among the others. -/
theorem fields_of_add?_typed (typed : key ∈ typedKeys) (added : draft.add? key value = some next) :
    next.fields = draft.fields := by
  simp only [typedKeys, List.mem_cons, List.not_mem_nil, or_false] at typed
  unfold add? at added
  rcases typed with rfl | rfl | rfl
  · rw [if_pos rfl] at added
    split at added
    next none =>
      rcases Option.bind_eq_some_iff.mp added with ⟨id, -, same⟩
      cases same
      rfl
    next => cases added
  · rw [if_neg (by decide), if_pos rfl] at added
    split at added
    next =>
      cases added
      rfl
    next =>
      rcases Option.bind_eq_some_iff.mp added with ⟨path, -, same⟩
      cases same
      rfl
    next => cases added
  · rw [if_neg (by decide), if_neg (by decide), if_pos rfl] at added
    split at added
    next =>
      cases added
      rfl
    next => cases added

/-- The fields after all of an object have been taken up: those before, and then in turn the ones
that are not typed. -/
theorem fields_of_addAll? (added : draft.addAll? members = some next) :
    ∃ pairs, Written.fieldsAt? 1 (members.filter isOrdinary) = some pairs ∧
      next.fields =
        pairs.foldl (fun sorted pair => Keyed.insert pair.1 pair.2 sorted) draft.fields := by
  induction members generalizing draft with
  | nil =>
    cases added
    exact ⟨[], rfl, rfl⟩
  | cons member members ih =>
    rcases member with ⟨name, value⟩
    rw [addAll?] at added
    simp only [Option.bind_eq_bind, Option.bind_eq_some_iff] at added
    rcases added with ⟨key, named, between, first, rest⟩
    rcases ih rest with ⟨pairs, means, fields⟩
    by_cases typed : key ∈ typedKeys
    · have left : ¬ isOrdinary (name, value) = true :=
        fun ordinary => (isOrdinary_iff named).mp ordinary typed
      rw [List.filter_cons_of_neg left, ← fields_of_add?_typed typed first]
      exact ⟨pairs, means, fields⟩
    · rw [add?_of_ordinary typed] at first
      rcases Option.map_eq_some_iff.mp first with ⟨json, meaning, rfl⟩
      refine ⟨(key, json) :: pairs, ?_, fields⟩
      rw [List.filter_cons_of_pos ((isOrdinary_iff named).mpr typed), Written.fieldsAt?, named,
        meaning, means]
      rfl

/-- Fields that are not typed are all put under their keys. -/
theorem addAll?_of_ordinary {pairs : List (String × Json)}
    (ordinary : ∀ member ∈ members, isOrdinary member = true)
    (means : Written.fieldsAt? 1 members = some pairs) :
    draft.addAll? members = some { draft with
      fields := pairs.foldl (fun sorted pair => Keyed.insert pair.1 pair.2 sorted) draft.fields } := by
  induction members generalizing draft pairs with
  | nil =>
    cases means
    rfl
  | cons member members ih =>
    rcases member with ⟨name, value⟩
    rw [Written.fieldsAt?] at means
    simp only [Option.bind_eq_bind, Option.bind_eq_some_iff] at means
    rcases means with ⟨key, named, json, meaning, rest, means, same⟩
    cases same
    rcases List.forall_mem_cons.mp ordinary with ⟨first, later⟩
    rw [addAll?, named, Option.bind_eq_bind, Option.bind_some,
      add?_of_ordinary ((isOrdinary_iff named).mp first), meaning, Option.map_some,
      Option.bind_eq_bind, Option.bind_some, ih later means]
    rfl

theorem addAll?_append (front back : List (List Piece × Written)) :
    draft.addAll? (front ++ back) = (draft.addAll? front).bind fun next => next.addAll? back := by
  induction front generalizing draft with
  | nil => rfl
  | cons member front ih =>
    rcases member with ⟨name, value⟩
    simp only [List.cons_append, addAll?, Option.bind_eq_bind, Option.bind_assoc, ih]

end Draft

/-! ## What a record is read from -/

variable {record : Record} {text : String}

/-- A record is read from an object, whose fields that are not typed become its own. -/
theorem fields_of_read? (read : read? text = some record) :
    ∃ members pairs, Written.read? text = some (.object members) ∧
      Written.fieldsAt? 1 (members.filter isOrdinary) = some pairs ∧
      record.fields = Keyed.ofList pairs := by
  rcases Option.bind_eq_some_iff.mp read with ⟨document, written, made⟩
  cases document with
  | object members =>
    rcases Option.bind_eq_some_iff.mp made with ⟨draft, added, finished⟩
    rcases Draft.fields_of_addAll? added with ⟨pairs, means, fields⟩
    rcases Option.map_eq_some_iff.mp finished with ⟨id, -, rfl⟩
    exact ⟨members, pairs, written, means, fields⟩
  | null | bool | numeral | text | array => cases made

/-- The keys of a record are the names in its object, all but those of the typed fields. -/
theorem mem_keys_of_read? (read : read? text = some record) :
    ∃ members, Written.read? text = some (.object members) ∧
      ∀ key, key ∈ record.fields.map Prod.fst ↔
        key ∉ typedKeys ∧ ∃ member ∈ members, Piece.text? member.1 = some key := by
  rcases fields_of_read? read with ⟨members, pairs, written, means, fields⟩
  refine ⟨members, written, fun key => ?_⟩
  rw [fields, Keyed.mem_keys_ofList, Json.mem_keys_of_fieldsAt? means]
  constructor
  · rintro ⟨member, ordinary, named⟩
    rcases List.mem_filter.mp ordinary with ⟨here, ordinary⟩
    exact ⟨(isOrdinary_iff named).mp ordinary, member, here, named⟩
  · rintro ⟨untyped, member, here, named⟩
    exact ⟨member, List.mem_filter.mpr ⟨here, (isOrdinary_iff named).mpr untyped⟩, named⟩

/-- The record can be read back: its keys are in order, none of them is that of a typed field, and its
values can be read back inside it. -/
structure IsLegible (record : Record) : Prop where
  untyped : ∀ field ∈ record.fields, field.1 ∉ typedKeys
  sorted : Keyed.IsSorted record.fields
  values : ∀ field ∈ record.fields, Json.LegibleAt 1 field.2

/-- A record that was read is legible, if its numbers are whole. -/
theorem isLegible_of_read? (read : read? text = some record)
    (whole : ∀ field ∈ record.fields, field.2.IsWhole) : record.IsLegible := by
  rcases fields_of_read? read with ⟨members, pairs, -, means, fields⟩
  rcases mem_keys_of_read? read with ⟨_, -, keys⟩
  refine ⟨fun field member => ?_, ?_, fun field member => ?_⟩
  · exact ((keys field.1).mp (List.mem_map_of_mem member)).1
  · rw [fields]
    exact Keyed.isSorted_ofList pairs
  · have put : field ∈ pairs := Keyed.mem_of_mem_ofList (fields ▸ member)
    exact Json.legibleAt_of_fieldsAt? _ means field put (whole field member)

/-! ## Reading what a record is written as -/

/-- The typed fields of a record as it is written. -/
def typedFields (record : Record) : List (String × Json) :=
  ("_id", .string record.id) ::
    ((record.path.map fun path => ("_path", .string path)).toList ++
      (if record.deleted then [("_deleted", .bool true)] else []))

theorem toJson_eq (record : Record) :
    record.toJson = .object (record.typedFields ++ record.fields) := by
  rw [toJson, typedFields, List.cons_append, List.append_assoc]

theorem isWhole_of_mem_typedFields : ∀ field ∈ record.typedFields, field.2.IsWhole := by
  intro field member
  simp only [typedFields, List.mem_cons, List.mem_append, Option.mem_toList,
    Option.map_eq_some_iff] at member
  rcases member with rfl | ⟨path, -, rfl⟩ | deleted
  · exact .string _
  · exact .string _
  · split at deleted
    · rw [List.mem_singleton.mp deleted]
      exact .bool true
    · cases deleted

theorem IsLegible.isWhole (legible : record.IsLegible) : record.toJson.IsWhole := by
  rw [toJson_eq]
  exact .object (List.forall_mem_append.mpr
    ⟨isWhole_of_mem_typedFields, fun field member => (legible.values field member).isWhole⟩)

/-- The typed fields are taken up as they were. -/
theorem addAll?_typedFields (record : Record) :
    Draft.addAll? {} (Json.writtenFields record.typedFields) =
      some ⟨some record.id, record.path.map some, if record.deleted then some true else none, []⟩ := by
  rcases record with ⟨id, path, deleted, fields⟩
  cases path <;> cases deleted <;>
    simp [typedFields, Json.writtenFields, Json.written, Draft.addAll?, Draft.add?,
      Piece.text?_ofText]

/-- A legible record is read from the text that it is written as. -/
theorem IsLegible.read?_compact (legible : record.IsLegible) :
    read? record.toJson.compact = some record := by
  have means : Written.fieldsAt? 1 (Json.writtenFields record.fields) = some record.fields :=
    Json.fieldsAt?_written fun field member => (legible.values field member).valueAt?_written
  have ordinary : ∀ member ∈ Json.writtenFields record.fields, isOrdinary member = true := by
    rw [Json.writtenFields_eq_map]
    refine List.forall_mem_map.mpr fun field member => ?_
    exact (isOrdinary_iff (Piece.text?_ofText field.1)).mpr (legible.untyped field member)
  have finished : Draft.finish? ⟨some record.id, record.path.map some,
      if record.deleted then some true else none, record.fields⟩ = some record := by
    rcases record with ⟨id, path, deleted, fields⟩
    cases path <;> cases deleted <;> rfl
  rw [read?, Written.read?_compact legible.isWhole, toJson_eq, Json.written,
    Json.writtenFields_eq_map, List.map_append, ← Json.writtenFields_eq_map,
    ← Json.writtenFields_eq_map]
  change (Draft.addAll? {} (_ ++ _)).bind Draft.finish? = some record
  rw [Draft.addAll?_append, addAll?_typedFields, Option.bind_some,
    Draft.addAll?_of_ordinary ordinary means, Option.bind_some]
  dsimp only
  rw [← Keyed.ofList, legible.sorted.ofList_eq, finished]

/-- A record with whole numbers, whatever text it was read from, is read again from the text that it is
written as, and is then written as that text.  Its keys are the names in the object that was read, but
for those of the typed fields. -/
theorem reads_as_written (read : read? text = some record)
    (whole : ∀ field ∈ record.fields, field.2.IsWhole) :
    read? record.toJson.compact = some record ∧
      (∀ again, read? record.toJson.compact = some again →
        again.toJson.compact = record.toJson.compact) ∧
      ∃ members, Written.read? text = some (.object members) ∧
        ∀ key, key ∈ record.fields.map Prod.fst ↔
          key ∉ typedKeys ∧ ∃ member ∈ members, Piece.text? member.1 = some key := by
  have reread := (isLegible_of_read? read whole).read?_compact
  refine ⟨reread, fun again readAgain => ?_, mem_keys_of_read? read⟩
  rw [reread] at readAgain
  cases readAgain
  rfl

/-- A record with its fields in no order, one of them twice, and one that only looks typed. -/
def scatteredText : String :=
  "\x7b\"_kind\":[1,-2], \"b\":1,\"_id\":\"1:\\/a\", \"b\":\x7b\"z\":null,\"a\":\"\\u00e9\"\x7d," ++
    "\"_path\":null,\"_deleted\":false\x7d"

/-- The fields of its object. -/
def scatteredMembers : List (List Piece × Written) :=
  [(Piece.ofText "_kind", .array [.numeral (.ofInt 1), .numeral (.ofInt (-2))]),
    (Piece.ofText "b", .numeral (.ofInt 1)), (Piece.ofText "_id", .text (Piece.ofText "1:/a")),
    (Piece.ofText "b", .object [(Piece.ofText "z", .null), (Piece.ofText "a", .text [.unit 0xe9])]),
    (Piece.ofText "_path", .null), (Piece.ofText "_deleted", .bool false)]

/-- The record that it spells. -/
def scattered : Record where
  id := "1:/a"
  path := none
  deleted := false
  fields := [("_kind", .array [.number (.whole 1), .number (.whole (-2))]),
    ("b", .object [("a", .string "é"), ("z", .null)])]

theorem reads_as_written_somewhere :
    read? scatteredText = some scattered ∧ (∀ field ∈ scattered.fields, field.2.IsWhole) ∧
      read? scattered.toJson.compact = some scattered ∧
      ∃ members, Written.read? scatteredText = some (.object members) ∧
        (∃ member ∈ members, Piece.text? member.1 = some "_kind") ∧
        "_path" ∉ scattered.fields.map Prod.fst := by
  have tokens : Json.Token.scan? scatteredText.toList =
      some (Written.object scatteredMembers).tokens := by decide +kernel
  have read : read? scatteredText = some scattered := by
    rw [read?, Written.read?, tokens, Option.bind_some, Written.ofTokens?_tokens]
    change (Draft.addAll? {} scatteredMembers).bind Draft.finish? = some scattered
    simp only [scatteredMembers, Draft.addAll?, Piece.text?_ofText, Draft.add?,
      Option.bind_eq_bind, Option.bind_some, if_true]
    rfl
  have whole : ∀ field ∈ scattered.fields, field.2.IsWhole := by
    refine List.forall_mem_cons.mpr ⟨?_, List.forall_mem_singleton.mpr ?_⟩
    · exact .array (List.forall_mem_cons.mpr
        ⟨.number 1, List.forall_mem_singleton.mpr (.number (-2))⟩)
    · exact .object (List.forall_mem_cons.mpr
        ⟨.string "é", List.forall_mem_singleton.mpr .null⟩)
  rcases reads_as_written read whole with ⟨again, -, members, written, keys⟩
  refine ⟨read, whole, again, members, written, ?_, fun there => ?_⟩
  · exact ((keys "_kind").mp List.mem_cons_self).2
  · exact ((keys "_path").mp there).1 (by decide)

end TreeExport.Record

import TreeExport.Proofs.Answers
import TreeExport.Proofs.Dump.Entries
import TreeExport.Proofs.Keyed
import TreeExport.Proofs.Text.Utf8

/-!
# What becomes of references to blobs

A place in a value is a list of positions, one for each array on the way to it.  A value is resolved
by exchanging what stands at the places of its references (`Entry.Replaces`), and in no other way
(`Entry.resolve_eq_ok_iff`).  It cannot be resolved just where a reference is refused, and then the
first one in the order of places is to blame (`Entry.resolve_eq_error_iff`).

Which references are looked up does not show in the answer of a function.  So there is a second
version of the functions that looks them up in any monad (`Entry.resolveIn`): among the errors it is
the first one, and where it is noted what is looked up it tells all of it (`Entry.notes_json`).
-/

namespace TreeExport

/-! ## Places -/

namespace Json

/-- What stands at a place: the value itself, or something in the items of an array. -/
def at? : List Nat → Json → Option Json
  | [], value => some value
  | index :: place, array items => items[index]?.bind (at? place)
  | _ :: _, _ => none

variable {place : List Nat} {index : Nat} {items : List Json} {value : Json}

@[simp] theorem at?_nil (value : Json) : value.at? [] = some value := by
  unfold at?
  rfl

@[simp] theorem at?_array_cons (index : Nat) (place : List Nat) (items : List Json) :
    (array items).at? (index :: place) = items[index]?.bind (at? place) := rfl

/-- There is nothing inside anything but an array. -/
theorem at?_eq_some_iff (noArray : ∀ items, value ≠ array items) {found : Json} :
    value.at? place = some found ↔ place = [] ∧ found = value := by
  cases place with
  | nil =>
    rw [at?_nil, Option.some_inj]
    exact ⟨fun same => ⟨rfl, same.symm⟩, fun same => same.2.symm⟩
  | cons index place =>
    have nothing : value.at? (index :: place) = none := by
      cases value with
      | array items => exact absurd rfl (noArray items)
      | _ => rfl
    rw [nothing]
    exact ⟨nofun, fun same => by cases same.1⟩

theorem at?_cons_of_getElem? {item : Json} (here : items[index]? = some item) :
    (array items).at? (index :: place) = item.at? place := by
  rw [at?_array_cons, here, Option.bind_some]

theorem exists_of_at?_cons {found : Json} (there : (array items).at? (index :: place) = some found) :
    ∃ item, items[index]? = some item ∧ item.at? place = some found :=
  Option.bind_eq_some_iff.mp there

end Json

namespace Entry

/-! ## What a value is to the one who resolves it -/

/-- The object that refers to a blob. -/
def blobReference (name : String) : Json :=
  .object [(referenceKey, .string name)]

/-- The value is neither a reference nor an array. -/
structure IsPlain (value : Json) : Prop where
  noReference : ∀ name, value ≠ blobReference name
  noArray : ∀ items, value ≠ .array items

theorem blobReference_ne_array (name : String) (items : List Json) :
    blobReference name ≠ .array items :=
  nofun

theorem cases_of_value (value : Json) :
    (∃ name, value = blobReference name) ∨ (∃ items, value = .array items) ∨ IsPlain value := by
  by_cases refers : ∃ name, value = blobReference name
  · exact .inl refers
  · by_cases array : ∃ items, value = .array items
    · exact .inr (.inl array)
    · exact .inr (.inr ⟨fun name same => refers ⟨name, same⟩, fun items same => array ⟨items, same⟩⟩)

/-- What holds of references, of plain values, and of arrays if it holds of their items, holds of all
values. -/
@[elab_as_elim] theorem value_induction {motive : Json → Prop}
    (reference : ∀ name, motive (blobReference name))
    (array : ∀ items, (∀ item ∈ items, motive item) → motive (.array items))
    (plain : ∀ value, IsPlain value → motive value) (value : Json) : motive value := by
  rcases cases_of_value value with refers | listed | rest
  · rcases refers with ⟨name, rfl⟩
    exact reference name
  · rcases listed with ⟨items, rfl⟩
    exact array items fun item _ => value_induction reference array plain item
  · exact plain value rest
termination_by sizeOf value
decreasing_by
  have smaller := List.sizeOf_lt_of_mem ‹item ∈ items›
  have larger := congrArg sizeOf ‹value = .array items›
  rw [Json.array.sizeOf_spec] at larger
  omega

variable {blobs : BlobResolver} {value resolved : Json} {items values : List Json} {name : String}
  {place : List Nat} {cause : Error}

theorem resolve_blobReference (blobs : BlobResolver) (name : String) :
    resolve blobs (blobReference name) =
      (blobs name).map fun id => .string (blobMark ++ id) := by
  rw [blobReference, resolve, if_pos rfl]

theorem resolveItems_eq_mapM (blobs : BlobResolver) (items : List Json) :
    resolveItems blobs items = items.mapM (resolve blobs) := by
  induction items with
  | nil => rfl
  | cons item rest ih => rw [resolveItems, List.mapM_cons, ih]

theorem resolve_array (blobs : BlobResolver) (items : List Json) :
    resolve blobs (.array items) = (items.mapM (resolve blobs)).map .array := by
  rw [resolve, resolveItems_eq_mapM]

theorem resolve_plain (plain : IsPlain value) : resolve blobs value = .ok value := by
  unfold resolve
  split
  next key reference =>
    refine if_neg fun same => plain.noReference reference ?_
    rw [same]
    rfl
  next items => exact absurd rfl (plain.noArray items)
  next => rfl

/-! ## What is replaced -/

/-- A value is another one but for its references, each of which is replaced by the text that names the
blob. -/
structure Replaces (blobs : BlobResolver) (value resolved : Json) : Prop where
  references : ∀ place name, value.at? place = some (blobReference name) →
    ∃ id, blobs name = .ok id ∧ resolved.at? place = some (.string (blobMark ++ id))
  arrays : ∀ place items, value.at? place = some (.array items) →
    ∃ others, resolved.at? place = some (.array others) ∧ others.length = items.length
  rest : ∀ place other, value.at? place = some other → IsPlain other →
    resolved.at? place = some other

theorem replaces_blobReference_iff : Replaces blobs (blobReference name) resolved ↔
    ∃ id, blobs name = .ok id ∧ .string (blobMark ++ id) = resolved := by
  have inside {place : List Nat} {found : Json} :
      (blobReference name).at? place = some found ↔ place = [] ∧ found = blobReference name :=
    Json.at?_eq_some_iff (blobReference_ne_array name)
  constructor
  · intro replaces
    rcases replaces.references [] name (Json.at?_nil _) with ⟨id, found, there⟩
    rw [Json.at?_nil, Option.some_inj] at there
    exact ⟨id, found, there.symm⟩
  · rintro ⟨id, found, rfl⟩
    refine ⟨fun place other there => ?_, fun place items there => ?_, fun place other there plain => ?_⟩
    · rcases inside.mp there with ⟨rfl, same⟩
      cases same
      exact ⟨id, found, Json.at?_nil _⟩
    · cases (inside.mp there).2
    · exact absurd (inside.mp there).2 (plain.noReference name)

theorem replaces_plain_iff (plain : IsPlain value) : Replaces blobs value resolved ↔
    value = resolved := by
  have inside {place : List Nat} {found : Json} :
      value.at? place = some found ↔ place = [] ∧ found = value :=
    Json.at?_eq_some_iff plain.noArray
  constructor
  · intro replaces
    have there := replaces.rest [] value (Json.at?_nil _) plain
    rw [Json.at?_nil, Option.some_inj] at there
    exact there.symm
  · rintro rfl
    refine ⟨fun place other there => ?_, fun place items there => ?_, fun _ _ there _ => there⟩
    · exact absurd (inside.mp there).2.symm (plain.noReference other)
    · exact absurd (inside.mp there).2.symm (plain.noArray items)

/-- In an array the items are replaced, each by itself. -/
theorem replaces_array_iff : Replaces blobs (.array items) resolved ↔
    ∃ values, List.Forall₂ (Replaces blobs) items values ∧ .array values = resolved := by
  constructor
  · intro replaces
    rcases replaces.arrays [] items (Json.at?_nil _) with ⟨values, there, length⟩
    rw [Json.at?_nil, Option.some_inj] at there
    rw [there] at replaces
    refine ⟨values, List.forall₂_iff_get.mpr ⟨length.symm, fun index before after => ?_⟩, there.symm⟩
    -- what is said of the places in one item is said of those in the array that begin with its index
    have from_array : ∀ place, (Json.array items).at? (index :: place) =
        (items.get ⟨index, before⟩).at? place :=
      fun place => Json.at?_cons_of_getElem? (List.getElem?_eq_getElem before)
    have to_array : ∀ place, (Json.array values).at? (index :: place) =
        (values.get ⟨index, after⟩).at? place :=
      fun place => Json.at?_cons_of_getElem? (List.getElem?_eq_getElem after)
    refine ⟨fun place => ?_, fun place => ?_, fun place => ?_⟩
    · rw [← from_array, ← to_array]
      exact replaces.references (index :: place)
    · rw [← from_array, ← to_array]
      exact replaces.arrays (index :: place)
    · rw [← from_array, ← to_array]
      exact replaces.rest (index :: place)
  · rintro ⟨values, each, rfl⟩
    have inside {index : Nat} {place : List Nat} {found : Json}
        (there : (Json.array items).at? (index :: place) = some found) :
        ∃ item other, Replaces blobs item other ∧ item.at? place = some found ∧
          (Json.array values).at? (index :: place) = other.at? place := by
      rcases Json.exists_of_at?_cons there with ⟨item, here, found⟩
      rcases List.getElem?_eq_some_iff.mp here with ⟨before, rfl⟩
      have after : index < values.length := each.length_eq ▸ before
      exact ⟨_, _, each.get before after, found,
        Json.at?_cons_of_getElem? (List.getElem?_eq_getElem after)⟩
    refine ⟨fun place other there => ?_, fun place others there => ?_, fun place other there plain => ?_⟩
    · cases place with
      | nil => cases there
      | cons index place =>
        rcases inside there with ⟨item, after, replaces, found, same⟩
        rw [same]
        exact replaces.references place other found
    · cases place with
      | nil =>
        cases there
        exact ⟨values, Json.at?_nil _, each.length_eq.symm⟩
      | cons index place =>
        rcases inside there with ⟨item, after, replaces, found, same⟩
        rw [same]
        exact replaces.arrays place others found
    · cases place with
      | nil =>
        cases there
        exact absurd rfl (plain.noArray items)
      | cons index place =>
        rcases inside there with ⟨item, after, replaces, found, same⟩
        rw [same]
        exact replaces.rest place other found plain

/-- A value is resolved by replacing its references, and in no other way. -/
theorem resolve_eq_ok_iff : resolve blobs value = .ok resolved ↔ Replaces blobs value resolved := by
  induction value using value_induction generalizing resolved with
  | reference name =>
    rw [resolve_blobReference, map_eq_ok_iff, replaces_blobReference_iff]
  | array items ih =>
    rw [resolve_array, map_eq_ok_iff, replaces_array_iff]
    refine exists_congr fun values => and_congr_left' ?_
    rw [mapM_eq_ok_iff]
    exact forall₂_congr_of_mem fun item member _ => ih item member
  | plain value plain =>
    rw [resolve_plain plain, replaces_plain_iff plain]
    exact ⟨Except.ok.inj, congrArg Except.ok⟩

/-! ## Which references a value has -/

theorem references_blobReference (name : String) : references (blobReference name) = [name] := by
  rw [blobReference, references, if_pos rfl]

theorem itemReferences_eq_flatMap (items : List Json) :
    itemReferences items = items.flatMap references := by
  induction items with
  | nil => rfl
  | cons item rest ih => rw [itemReferences, List.flatMap_cons, ih]

theorem references_array (items : List Json) :
    references (.array items) = items.flatMap references := by
  rw [references, itemReferences_eq_flatMap]

theorem references_plain (plain : IsPlain value) : references value = [] := by
  unfold references
  split
  next key reference =>
    refine if_neg fun same => plain.noReference reference ?_
    rw [same]
    rfl
  next items => exact absurd rfl (plain.noArray items)
  next => rfl

/-- The references of a value are those that stand at some place. -/
theorem mem_references_iff :
    name ∈ references value ↔ ∃ place, value.at? place = some (blobReference name) := by
  induction value using value_induction with
  | reference other =>
    rw [references_blobReference, List.mem_singleton]
    constructor
    · rintro rfl
      exact ⟨[], Json.at?_nil _⟩
    · rintro ⟨place, there⟩
      cases ((Json.at?_eq_some_iff (blobReference_ne_array other)).mp there).2
      rfl
  | array items ih =>
    rw [references_array, List.mem_flatMap]
    constructor
    · rintro ⟨item, member, refers⟩
      rcases (ih item member).mp refers with ⟨place, inside⟩
      rcases List.mem_iff_getElem?.mp member with ⟨index, here⟩
      exact ⟨index :: place, (Json.at?_cons_of_getElem? here).trans inside⟩
    · rintro ⟨place, there⟩
      cases place with
      | nil => cases there
      | cons index place =>
        rcases Json.exists_of_at?_cons there with ⟨item, here, inside⟩
        have member := List.mem_of_getElem? here
        exact ⟨item, member, (ih item member).mpr ⟨place, inside⟩⟩
  | plain value plain =>
    rw [references_plain plain]
    constructor
    · intro refers
      cases refers
    · rintro ⟨place, there⟩
      have same := ((Json.at?_eq_some_iff plain.noArray).mp there).2
      exact absurd same.symm (plain.noReference name)

/-- A value is resolved just where all its references are found. -/
theorem exists_resolve_iff : (∃ resolved, resolve blobs value = .ok resolved) ↔
    ∀ place name, value.at? place = some (blobReference name) → ∃ id, blobs name = .ok id := by
  constructor
  · rintro ⟨resolved, resolves⟩ place name there
    rcases (resolve_eq_ok_iff.mp resolves).references place name there with ⟨id, found, -⟩
    exact ⟨id, found⟩
  · intro all
    have fails := failsWith_resolve blobs value
    cases answer : resolve blobs value with
    | ok resolved => exact ⟨resolved, rfl⟩
    | error cause =>
      rw [answer] at fails
      rcases fails with ⟨name, refers, refused⟩
      rcases mem_references_iff.mp refers with ⟨place, there⟩
      rcases all place name there with ⟨id, found⟩
      cases refused.symm.trans found

/-! ## Why a value is not resolved -/

/-- The first reference of a value that is refused, in the order of places, and why. -/
structure FirstRefused (blobs : BlobResolver) (cause : Error) (value : Json) (place : List Nat)
    (name : String) : Prop where
  here : value.at? place = some (blobReference name)
  refused : blobs name = .error cause
  earlier : ∀ other < place, ∀ found, value.at? other = some (blobReference found) →
    ∃ id, blobs found = .ok id

/-- The first reference of an array that is refused is the first one of the first item that has one. -/
theorem firstRefused_array_iff : (∃ place name, FirstRefused blobs cause (.array items) place name) ↔
    ∃ front item back, items = front ++ item :: back ∧
      (∃ place name, FirstRefused blobs cause item place name) ∧
      ∀ earlier ∈ front, ∃ resolved, resolve blobs earlier = .ok resolved := by
  constructor
  · rintro ⟨place, name, first⟩
    cases place with
    | nil => cases first.here
    | cons index place =>
      rcases Json.exists_of_at?_cons first.here with ⟨item, at_index, inside⟩
      rcases List.getElem?_eq_some_iff.mp at_index with ⟨within, rfl⟩
      refine ⟨items.take index, items[index], items.drop (index + 1), ?_,
        ⟨place, name, inside, first.refused, fun other low found there => ?_⟩,
        fun earlier member => exists_resolve_iff.mpr fun other found there => ?_⟩
      · rw [← List.drop_eq_getElem_cons within, List.take_append_drop]
      · refine first.earlier (index :: other) (List.cons_lt_cons_iff.mpr (.inr ⟨rfl, low⟩)) found ?_
        exact (Json.at?_cons_of_getElem? at_index).trans there
      · rcases List.mem_iff_getElem?.mp member with ⟨position, at_position⟩
        rw [List.getElem?_take] at at_position
        split at at_position
        next low =>
          refine first.earlier (position :: other) (List.cons_lt_cons_iff.mpr (.inl low)) found ?_
          exact (Json.at?_cons_of_getElem? at_position).trans there
        next => cases at_position
  · rintro ⟨front, item, back, rfl, ⟨place, name, first⟩, before⟩
    have here : (front ++ item :: back)[front.length]? = some item := by
      rw [List.getElem?_append_right (Nat.le_refl _), Nat.sub_self, List.getElem?_cons_zero]
    refine ⟨front.length :: place, name, (Json.at?_cons_of_getElem? here).trans first.here,
      first.refused, fun other earlier found there => ?_⟩
    cases other with
    | nil => cases there
    | cons index other =>
      rcases Json.exists_of_at?_cons there with ⟨another, at_index, inside⟩
      rcases List.cons_lt_cons_iff.mp earlier with low | ⟨rfl, low⟩
      · rw [List.getElem?_append_left low] at at_index
        exact exists_resolve_iff.mp (before another (List.mem_of_getElem? at_index)) other found inside
      · cases here.symm.trans at_index
        exact first.earlier other low found inside

/-- A value is refused because of its first reference that is refused. -/
theorem resolve_eq_error_iff : resolve blobs value = .error cause ↔
    ∃ place name, FirstRefused blobs cause value place name := by
  induction value using value_induction generalizing cause with
  | reference name =>
    rw [resolve_blobReference, map_eq_error_iff]
    constructor
    · intro refused
      exact ⟨[], name, Json.at?_nil _, refused, fun other before => absurd before (List.not_lt_nil _)⟩
    · rintro ⟨place, other, first⟩
      cases ((Json.at?_eq_some_iff (blobReference_ne_array name)).mp first.here).2
      exact first.refused
  | array items ih =>
    rw [resolve_array, map_eq_error_iff, mapM_eq_error_iff, firstRefused_array_iff]
    refine exists_congr fun front => exists_congr fun item => exists_congr fun back =>
      and_congr_right fun split => and_congr_left' (ih item ?_)
    rw [split]
    exact List.mem_append_right _ List.mem_cons_self
  | plain value plain =>
    rw [resolve_plain plain]
    constructor
    · intro refused
      cases refused
    · rintro ⟨place, name, first⟩
      have same := ((Json.at?_eq_some_iff plain.noArray).mp first.here).2
      exact absurd same.symm (plain.noReference name)

/-! ## What has been resolved -/

/-- What has been resolved has no reference any more. -/
theorem Replaces.at?_ne (replaces : Replaces blobs value resolved) (place : List Nat) (name : String) :
    resolved.at? place ≠ some (blobReference name) := by
  induction value using value_induction generalizing resolved place with
  | reference other =>
    rcases replaces_blobReference_iff.mp replaces with ⟨id, -, rfl⟩
    intro there
    have noArray (items : List Json) : Json.string (blobMark ++ id) ≠ .array items := nofun
    cases ((Json.at?_eq_some_iff noArray).mp there).2
  | array items ih =>
    rcases replaces_array_iff.mp replaces with ⟨values, each, rfl⟩
    intro there
    cases place with
    | nil => cases there
    | cons index place =>
      rcases Json.exists_of_at?_cons there with ⟨after, at_index, inside⟩
      rcases List.getElem?_eq_some_iff.mp at_index with ⟨within, rfl⟩
      have before : index < items.length := each.length_eq ▸ within
      exact ih _ (List.getElem_mem before) (each.get before within) place inside
  | plain value plain =>
    rw [← (replaces_plain_iff plain).mp replaces]
    intro there
    exact plain.noReference name ((Json.at?_eq_some_iff plain.noArray).mp there).2.symm

theorem references_resolved (replaces : Replaces blobs value resolved) : references resolved = [] := by
  refine List.eq_nil_iff_forall_not_mem.mpr fun name refers => ?_
  rcases mem_references_iff.mp refers with ⟨place, there⟩
  exact replaces.at?_ne place name there

/-- What has been resolved is resolved as itself. -/
theorem resolve_resolved (replaces : Replaces blobs value resolved) (others : BlobResolver) :
    resolve others resolved = .ok resolved := by
  refine resolve_eq_ok_iff.mpr ⟨fun place name there => ?_, fun place items there => ?_,
    fun place other there _ => there⟩
  · exact absurd there (replaces.at?_ne place name)
  · exact ⟨items, there, rfl⟩

/-! ## The fields of a node -/

/-- The fields that are the node's own. -/
def ownFields (fields : List (String × Json)) : List (String × Json) :=
  fields.filter fun field => !isSystemField field.1

variable {fields pairs : List (String × Json)} {text : String}

theorem properties_eq_mapM (blobs : BlobResolver) (fields : List (String × Json)) :
    properties blobs fields =
      (ownFields fields).mapM fun field => (resolve blobs field.2).map fun value => (field.1, value) := by
  induction fields with
  | nil => rfl
  | cons field rest ih =>
    rcases field with ⟨name, value⟩
    unfold properties ownFields
    cases system : isSystemField name with
    | true =>
      rw [List.filter_cons_of_neg (by simp [system]), ih, if_pos rfl]
      rfl
    | false =>
      rw [List.filter_cons_of_pos (by simp [system]), List.mapM_cons, ih, if_neg Bool.false_ne_true]
      cases resolve blobs value <;> rfl

theorem fieldReferences_eq (fields : List (String × Json)) :
    fieldReferences fields = (ownFields fields).flatMap fun field => references field.2 := by
  induction fields with
  | nil => rfl
  | cons field rest ih =>
    rcases field with ⟨name, value⟩
    unfold fieldReferences ownFields at *
    rw [List.flatMap_cons, ih]
    cases system : isSystemField name with
    | true =>
      rw [List.filter_cons_of_neg (by simp [system])]
      simp only [system, if_true, List.nil_append]
    | false =>
      rw [List.filter_cons_of_pos (by simp [system]), List.flatMap_cons]
      simp only [system, Bool.false_eq_true, if_false]

/-- A property stands under the name of its field, and its references are replaced. -/
structure Property (blobs : BlobResolver) (field pair : String × Json) : Prop where
  name : pair.1 = field.1
  value : Replaces blobs field.2 pair.2

theorem properties_eq_ok_iff : properties blobs fields = .ok pairs ↔
    List.Forall₂ (Property blobs) (ownFields fields) pairs := by
  rw [properties_eq_mapM, mapM_eq_ok_iff]
  refine forall₂_congr_of_mem fun field _ pair => ?_
  rw [map_eq_ok_iff]
  constructor
  · rintro ⟨value, resolves, rfl⟩
    exact ⟨rfl, resolve_eq_ok_iff.mp resolves⟩
  · intro property
    refine ⟨pair.2, resolve_eq_ok_iff.mpr property.value, ?_⟩
    rw [← property.name]

theorem properties_eq_error_iff : properties blobs fields = .error cause ↔
    ∃ front name value back, ownFields fields = front ++ (name, value) :: back ∧
      (∃ place reference, FirstRefused blobs cause value place reference) ∧
      ∀ earlier ∈ front, ∀ place reference,
        earlier.2.at? place = some (blobReference reference) → ∃ id, blobs reference = .ok id := by
  have answered (field : String × Json) :
      (∃ pair, ((resolve blobs field.2).map fun value => (field.1, value)) = .ok pair) ↔
        ∀ place reference, field.2.at? place = some (blobReference reference) →
          ∃ id, blobs reference = .ok id := by
    rw [← exists_resolve_iff]
    constructor
    · rintro ⟨pair, mapped⟩
      rcases map_eq_ok_iff.mp mapped with ⟨resolved, resolves, -⟩
      exact ⟨resolved, resolves⟩
    · rintro ⟨resolved, resolves⟩
      exact ⟨(field.1, resolved), map_eq_ok_iff.mpr ⟨resolved, resolves, rfl⟩⟩
  rw [properties_eq_mapM, mapM_eq_error_iff]
  simp only [map_eq_error_iff, resolve_eq_error_iff, answered, Prod.exists]

/-! ## Looking references up -/

section

variable {m : Type → Type} [Monad m]

mutual

/-- Replaces blob references that are looked up in a monad. -/
def resolveIn (look : String → m String) : Json → m Json
  | .object [(key, .string reference)] =>
    if key = referenceKey then (fun id => .string (blobMark ++ id)) <$> look reference
    else pure (.object [(key, .string reference)])
  | .array items => .array <$> resolveItemsIn look items
  | other => pure other

/-- Replaces blob references in the items of an array. -/
def resolveItemsIn (look : String → m String) : List Json → m (List Json)
  | [] => pure []
  | item :: rest => do
    let value ← resolveIn look item
    let values ← resolveItemsIn look rest
    pure (value :: values)

end

/-- The node's own properties, with blob references that are looked up in a monad. -/
def propertiesIn (look : String → m String) :
    List (String × Json) → m (List (String × Json))
  | [] => pure []
  | (name, value) :: rest =>
    if isSystemField name then propertiesIn look rest
    else do
      let value ← resolveIn look value
      let values ← propertiesIn look rest
      pure ((name, value) :: values)

/-- The node's own properties as JSON text, with blob references that are looked up in a monad. -/
def jsonIn (look : String → m String) (fields : List (String × Json)) : m String :=
  (fun pairs => (Json.object pairs).compact) <$> propertiesIn look fields

theorem resolveIn_blobReference (look : String → m String) (name : String) :
    resolveIn look (blobReference name) = (fun id => .string (blobMark ++ id)) <$> look name := by
  rw [blobReference, resolveIn, if_pos rfl]

theorem resolveIn_plain (look : String → m String) (plain : IsPlain value) :
    resolveIn look value = pure value := by
  unfold resolveIn
  split
  next key reference =>
    refine if_neg fun same => plain.noReference reference ?_
    rw [same]
    rfl
  next items => exact absurd rfl (plain.noArray items)
  next => rfl

end

/-! ### Among the errors -/

theorem resolveIn_except (blobs : BlobResolver) (value : Json) :
    resolveIn blobs value = resolve blobs value := by
  induction value using value_induction with
  | reference name =>
    rw [resolveIn_blobReference, resolve_blobReference]
    rfl
  | array items ih =>
    have each : resolveItemsIn blobs items = resolveItems blobs items := by
      induction items with
      | nil => rfl
      | cons item rest later =>
        rcases List.forall_mem_cons.mp ih with ⟨first, others⟩
        rw [resolveItemsIn, resolveItems, first, later others]
    rw [resolveIn, resolve, each]
    rfl
  | plain value plain => rw [resolveIn_plain _ plain, resolve_plain plain]; rfl

theorem propertiesIn_except (blobs : BlobResolver) (fields : List (String × Json)) :
    propertiesIn blobs fields = properties blobs fields := by
  induction fields with
  | nil => rfl
  | cons field rest ih =>
    rcases field with ⟨name, value⟩
    rw [propertiesIn, properties, resolveIn_except, ih]

/-- Among the errors the second version is the first one. -/
theorem jsonIn_except (blobs : BlobResolver) (fields : List (String × Json)) :
    jsonIn blobs fields = json blobs fields := by
  rw [jsonIn, json, propertiesIn_except]
  rfl

/-! ### Where it is noted what is looked up -/

/-- What may fail, and notes the references that are looked up. -/
abbrev Noting := ExceptT Error (StateM (List String))

/-- Notes a reference and looks it up. -/
def noting (blobs : BlobResolver) (name : String) : Noting String := do
  modify fun asked => asked ++ [name]
  ExceptT.mk (pure (blobs name))

/-- Of some references that are looked up one after the other, those up to the first one that is
refused. -/
def asked (blobs : BlobResolver) : List String → List String
  | [] => []
  | name :: rest =>
    match blobs name with
    | .ok _ => name :: asked blobs rest
    | .error _ => [name]

variable {α β : Type} {names more : List String}

theorem asked_of_found (found : ∀ name ∈ names, ∃ id, blobs name = .ok id) (more : List String) :
    asked blobs (names ++ more) = names ++ asked blobs more := by
  induction names with
  | nil => rfl
  | cons name rest ih =>
    rcases List.forall_mem_cons.mp found with ⟨⟨id, first⟩, others⟩
    rw [List.cons_append, asked, first, ih others, List.cons_append]

theorem asked_eq_self (found : ∀ name ∈ names, ∃ id, blobs name = .ok id) :
    asked blobs names = names := by
  have all := asked_of_found found []
  rw [List.append_nil] at all
  exact all.trans (List.append_nil names)

theorem asked_of_refused (refused : ∃ name ∈ names, blobs name = .error cause) (more : List String) :
    asked blobs (names ++ more) = asked blobs names := by
  induction names with
  | nil =>
    rcases refused with ⟨name, none, -⟩
    cases none
  | cons name rest ih =>
    rw [List.cons_append, asked, asked]
    cases first : blobs name with
    | error other => rfl
    | ok id =>
      have later : ∃ other ∈ rest, blobs other = .error cause := by
        rcases refused with ⟨other, member, refused⟩
        rcases List.mem_cons.mp member with rfl | member
        · cases first.symm.trans refused
        · exact ⟨other, member, refused⟩
      simp only [ih later]

/-- What is done answers as it should, and notes some references, up to the first one that is refused,
where it ends. -/
structure Notes (blobs : BlobResolver) (names : List String) (task : Noting α)
    (answer : Except Error α) : Prop where
  run : ∀ before, task.run.run before = (answer, before ++ asked blobs names)
  fails : FailsWith blobs names answer

theorem notes_pure (a : α) : Notes blobs [] (pure a) (.ok a) :=
  ⟨fun before => congrArg (Prod.mk _) (List.append_nil before).symm, nofun⟩

theorem notes_noting (blobs : BlobResolver) (name : String) :
    Notes blobs [name] (noting blobs name) (blobs name) := by
  refine ⟨fun before => ?_, ?_⟩
  · have one : asked blobs [name] = [name] := by
      rw [asked]
      cases blobs name <;> rfl
    rw [one]
    rfl
  · cases answer : blobs name with
    | ok id =>
      intro other member
      rw [List.mem_singleton.mp member]
      exact ⟨id, answer⟩
    | error cause => exact ⟨name, List.mem_singleton_self name, answer⟩

theorem Notes.bind {task : Noting α} {answer : Except Error α} {next : α → Noting β}
    {answers : α → Except Error β} (notes : Notes blobs names task answer)
    (later : ∀ a, Notes blobs more (next a) (answers a)) :
    Notes blobs (names ++ more) (task >>= next) (answer >>= answers) := by
  refine ⟨fun before => ?_, notes.fails.bind fun a => (later a).fails⟩
  have fails := notes.fails
  rw [ExceptT.run_bind, StateT.run_bind, notes.run]
  cases answer with
  | error cause =>
    rw [asked_of_refused fails]
    rfl
  | ok a =>
    have rest := (later a).run (before ++ asked blobs names)
    rw [asked_of_found fails more, ← List.append_assoc]
    rw [asked_eq_self fails] at rest ⊢
    exact rest

theorem Notes.map {task : Noting α} {answer : Except Error α} (notes : Notes blobs names task answer)
    (f : α → β) : Notes blobs names (f <$> task) (answer.map f) := by
  have none (a : α) : Notes blobs [] (pure (f a)) (.ok (f a)) := notes_pure (f a)
  have both := notes.bind none
  rw [List.append_nil] at both
  rw [map_eq_pure_bind]
  cases answer <;> exact both

theorem notes_resolve (blobs : BlobResolver) (value : Json) :
    Notes blobs (references value) (resolveIn (noting blobs) value) (resolve blobs value) := by
  induction value using value_induction with
  | reference name =>
    rw [resolveIn_blobReference, resolve_blobReference, references_blobReference]
    exact (notes_noting blobs name).map _
  | array items ih =>
    rw [resolveIn, resolve, references]
    refine Notes.map ?_ _
    induction items with
    | nil => exact notes_pure []
    | cons item rest later =>
      rcases List.forall_mem_cons.mp ih with ⟨first, others⟩
      rw [resolveItemsIn, resolveItems, itemReferences, ← List.append_nil (itemReferences rest)]
      exact first.bind fun value => (later others).bind fun values => notes_pure (value :: values)
  | plain value plain =>
    rw [resolveIn_plain _ plain, resolve_plain plain, references_plain plain]
    exact notes_pure value

theorem notes_properties (blobs : BlobResolver) (fields : List (String × Json)) :
    Notes blobs (fieldReferences fields) (propertiesIn (noting blobs) fields)
      (properties blobs fields) := by
  rw [fieldReferences_eq]
  induction fields with
  | nil => exact notes_pure []
  | cons field rest ih =>
    rcases field with ⟨name, value⟩
    rw [propertiesIn, properties, ownFields]
    cases system : isSystemField name with
    | true =>
      rw [List.filter_cons_of_neg (by simp [system]), if_pos rfl, if_pos rfl]
      exact ih
    | false =>
      rw [List.filter_cons_of_pos (by simp [system]), List.flatMap_cons,
        if_neg Bool.false_ne_true, if_neg Bool.false_ne_true,
        ← List.append_nil (List.flatMap _ (List.filter _ rest))]
      exact (notes_resolve blobs value).bind fun resolved =>
        ih.bind fun pairs => notes_pure ((name, resolved) :: pairs)

/-- The JSON text of a node takes the references in its own fields to be looked up, one after the other
up to the first one that is refused, and nothing else. -/
theorem notes_json (blobs : BlobResolver) (fields : List (String × Json)) :
    Notes blobs (fieldReferences fields) (jsonIn (noting blobs) fields) (json blobs fields) :=
  (notes_properties blobs fields).map _

theorem asked_isPrefix (blobs : BlobResolver) (names : List String) :
    asked blobs names <+: names := by
  induction names with
  | nil => exact List.prefix_refl []
  | cons name rest ih =>
    rw [asked]
    cases blobs name with
    | ok id => exact List.cons_prefix_cons.mpr ⟨rfl, ih⟩
    | error cause => exact List.cons_prefix_cons.mpr ⟨rfl, List.nil_prefix⟩

/-! ## The text of a node -/

theorem mem_ownFields {field : String × Json} :
    field ∈ ownFields fields ↔ field ∈ fields ∧ isSystemField field.1 = false := by
  rw [ownFields, List.mem_filter, Bool.not_eq_true']

theorem mem_fieldReferences_iff : name ∈ fieldReferences fields ↔
    ∃ field ∈ fields, isSystemField field.1 = false ∧
      ∃ place, field.2.at? place = some (blobReference name) := by
  rw [fieldReferences_eq, List.mem_flatMap]
  simp only [mem_ownFields, mem_references_iff, and_assoc]

theorem map_fst_ownFields (fields : List (String × Json)) :
    (ownFields fields).map Prod.fst =
      (fields.map Prod.fst).filter fun name => !isSystemField name := by
  rw [ownFields, List.filter_map]
  rfl

theorem map_fst_properties (each : List.Forall₂ (Property blobs) fields pairs) :
    pairs.map Prod.fst = fields.map Prod.fst := by
  induction each with
  | nil => rfl
  | cons first _ ih => rw [List.map_cons, List.map_cons, first.name, ih]

theorem exists_replaces (each : List.Forall₂ (Property blobs) fields pairs) :
    ∀ pair ∈ pairs, ∃ value, Replaces blobs value pair.2 := by
  induction each with
  | nil => exact nofun
  | cons first _ ih => exact List.forall_mem_cons.mpr ⟨⟨_, first.value⟩, ih⟩

/-- The properties of a node are its own fields, without references. -/
theorem properties_resolved (each : List.Forall₂ (Property blobs) (ownFields fields) pairs) :
    ownFields pairs = pairs ∧ fieldReferences pairs = [] ∧
      ∀ others, properties others pairs = .ok pairs := by
  have own : ownFields pairs = pairs := by
    refine List.filter_eq_self.mpr fun pair member => ?_
    have listed := List.mem_map_of_mem (f := Prod.fst) member
    rw [map_fst_properties each, map_fst_ownFields] at listed
    exact (List.mem_filter.mp listed).2
  have clear := exists_replaces each
  refine ⟨own, ?_, fun others => properties_eq_ok_iff.mpr ?_⟩
  · rw [fieldReferences_eq, own]
    refine List.flatMap_eq_nil_iff.mpr fun pair member => ?_
    rcases clear pair member with ⟨value, replaces⟩
    exact references_resolved replaces
  · rw [own]
    refine List.forall₂_same.mpr fun pair member => ⟨rfl, ?_⟩
    rcases clear pair member with ⟨value, replaces⟩
    exact resolve_eq_ok_iff.mp (resolve_resolved replaces others)

theorem json_eq_ok_iff : json blobs fields = .ok text ↔
    ∃ pairs, List.Forall₂ (Property blobs) (ownFields fields) pairs ∧
      (Json.object pairs).compact = text := by
  rw [json, map_eq_ok_iff]
  simp only [properties_eq_ok_iff]

/-- Properties stand in the order of the bytes of their names. -/
theorem sorted_properties (sorted : Keyed.IsSorted fields)
    (each : List.Forall₂ (Property blobs) (ownFields fields) pairs) :
    (pairs.map Prod.fst).Pairwise fun a b => Utf8.encode a < Utf8.encode b := by
  have own : Keyed.IsSorted (ownFields fields) := sorted.sublist List.filter_sublist
  rw [map_fst_properties each]
  exact List.pairwise_map.mpr (own.imp fun less => Utf8.encodeChars_lt less)

/-- The JSON text of a node is an object with its own fields, in the order of the bytes of their names,
where every reference at the top of a value or inside arrays of it is replaced and nothing else.  There
is no such text just where one of these references is refused, and the first one, by the order of
the names and then of places, is to blame.  Only they are looked up, one after the other up to the first
one that is refused.  What has been resolved stays as it is, and nothing is looked up for it. -/
theorem json_replaces_references (blobs : BlobResolver) (fields : List (String × Json))
    (sorted : Keyed.IsSorted fields) :
    (∀ text, json blobs fields = .ok text ↔
      ∃ pairs, List.Forall₂ (Property blobs) (ownFields fields) pairs ∧
        (Json.object pairs).compact = text) ∧
    (∀ pairs, List.Forall₂ (Property blobs) (ownFields fields) pairs →
      pairs.map Prod.fst = (fields.map Prod.fst).filter (fun name => !isSystemField name) ∧
      (pairs.map Prod.fst).Pairwise fun a b => Utf8.encode a < Utf8.encode b) ∧
    (∀ cause, json blobs fields = .error cause ↔
      ∃ front name value back, ownFields fields = front ++ (name, value) :: back ∧
        (∃ place reference, FirstRefused blobs cause value place reference) ∧
        ∀ earlier ∈ front, ∀ place reference,
          earlier.2.at? place = some (blobReference reference) →
            ∃ id, blobs reference = .ok id) ∧
    (jsonIn blobs fields = json blobs fields ∧
      (∀ before, (jsonIn (noting blobs) fields).run.run before =
        (json blobs fields, before ++ asked blobs (fieldReferences fields))) ∧
      ∀ reference ∈ asked blobs (fieldReferences fields),
        ∃ field ∈ fields, isSystemField field.1 = false ∧
          ∃ place, field.2.at? place = some (blobReference reference)) ∧
    (∀ value resolved, resolve blobs value = .ok resolved → ∀ others,
      resolve others resolved = .ok resolved ∧
      ∀ before, (resolveIn (noting others) resolved).run.run before = (.ok resolved, before)) ∧
    ∀ pairs, List.Forall₂ (Property blobs) (ownFields fields) pairs → ∀ others,
      json others pairs = .ok (Json.object pairs).compact ∧
      ∀ before, (jsonIn (noting others) pairs).run.run before =
        (.ok (Json.object pairs).compact, before) := by
  refine ⟨fun text => json_eq_ok_iff, fun pairs each => ⟨?_, sorted_properties sorted each⟩,
    fun cause => ?_, ⟨jsonIn_except blobs fields, (notes_json blobs fields).run,
      fun reference looked => ?_⟩, fun value resolved resolves others => ?_,
    fun pairs each others => ?_⟩
  · rw [map_fst_properties each, map_fst_ownFields]
  · rw [json, map_eq_error_iff, properties_eq_error_iff]
  · exact mem_fieldReferences_iff.mp ((asked_isPrefix blobs _).subset looked)
  · have replaces := resolve_eq_ok_iff.mp resolves
    have again := resolve_resolved replaces others
    refine ⟨again, fun before => ?_⟩
    rw [(notes_resolve others resolved).run, references_resolved replaces, again]
    exact congrArg (Prod.mk _) (List.append_nil before)
  · rcases properties_resolved each with ⟨-, none, again⟩
    have same : json others pairs = .ok (Json.object pairs).compact := by
      rw [json, again]
      rfl
    refine ⟨same, fun before => ?_⟩
    rw [(notes_json others pairs).run, none, same]
    exact congrArg (Prod.mk _) (List.append_nil before)

/-- A node with a reference in an array in an array, an object that is no reference, and a reference in a
field that is not its own. -/
def someFields : List (String × Json) :=
  [("_c", blobReference "z"), ("a", .array [.null, .array [blobReference "x"]]),
    ("b", .object [("$blob", .string "y"), ("c", .null)])]

/-- A blob for every name but one. -/
def someBlobs : BlobResolver := fun name =>
  if name = "z" then .error .cancelled else .ok (name ++ name)

theorem json_replaces_some_references : Keyed.IsSorted someFields ∧
    json someBlobs someFields = .ok
      "\x7b\"a\":[null,[\":blobId:xx\"]],\"b\":\x7b\"$blob\":\"y\",\"c\":null\x7d\x7d" ∧
    (∃ pairs, List.Forall₂ (Property someBlobs) (ownFields someFields) pairs ∧
      (Json.object pairs).compact =
        "\x7b\"a\":[null,[\":blobId:xx\"]],\"b\":\x7b\"$blob\":\"y\",\"c\":null\x7d\x7d") ∧
    ((jsonIn (noting someBlobs) someFields).run.run []).2 = ["x"] := by
  have sorted : Keyed.IsSorted someFields := by
    unfold Keyed.IsSorted
    decide +kernel
  rcases json_replaces_references someBlobs someFields sorted with
    ⟨texts, -, -, ⟨-, looks, -⟩, -⟩
  have made : json someBlobs someFields = .ok
      "\x7b\"a\":[null,[\":blobId:xx\"]],\"b\":\x7b\"$blob\":\"y\",\"c\":null\x7d\x7d" := by
    decide +kernel
  refine ⟨sorted, made, (texts _).mp made, ?_⟩
  rw [looks]
  decide +kernel

end Entry

end TreeExport

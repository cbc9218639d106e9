import TreeExport.Proofs.Json.Texts
import TreeExport.Proofs.Keyed

/-!
# What has been read can be written and read again

`LegibleAt` says which values can be read back from what they are written as
(`LegibleAt.valueAt?_written`).  Every value that a document means is one of them, as long as its
numbers are whole (`legibleAt_of_valueAt?`).  So reading, writing and reading again gives the value that
was read first, from either layout (`read?_compact_of_read?`, `read?_pretty_of_read?`).
-/

namespace TreeExport.Json

/-- The value can be read back with `depth` containers around it: its numbers are whole and in range,
its containers are not too deep, and the fields of its objects stand in key order. -/
inductive LegibleAt : Nat → Json → Prop
  | null {depth : Nat} : LegibleAt depth .null
  | bool {depth : Nat} (b : Bool) : LegibleAt depth (.bool b)
  | number {depth : Nat} {i : Int} (inRange : Numeral.IsInRange i) :
    LegibleAt depth (.number (.whole i))
  | string {depth : Nat} (s : String) : LegibleAt depth (.string s)
  | array {depth : Nat} {items : List Json} (shallow : depth < maxDepth)
    (all : ∀ item ∈ items, LegibleAt (depth + 1) item) : LegibleAt depth (.array items)
  | object {depth : Nat} {fields : List (String × Json)} (shallow : depth < maxDepth)
    (sorted : Keyed.IsSorted fields) (all : ∀ field ∈ fields, LegibleAt (depth + 1) field.2) :
    LegibleAt depth (.object fields)

variable {depth : Nat} {value : Json}

theorem LegibleAt.isWhole (legible : LegibleAt depth value) : value.IsWhole := by
  induction legible with
  | null => exact .null
  | bool b => exact .bool b
  | number => exact .number _
  | string s => exact .string s
  | array _ _ whole => exact .array whole
  | object _ _ _ whole => exact .object whole

/-! ## From what is written to its meaning -/

theorem itemsAt?_written {items : List Json}
    (each : ∀ item ∈ items, item.written.valueAt? depth = some item) :
    Written.itemsAt? depth (writtenItems items) = some items := by
  induction items with
  | nil => rfl
  | cons item items ih =>
    rcases List.forall_mem_cons.mp each with ⟨first, rest⟩
    rw [writtenItems, Written.itemsAt?, first, ih rest]
    rfl

theorem fieldsAt?_written {fields : List (String × Json)}
    (each : ∀ field ∈ fields, field.2.written.valueAt? depth = some field.2) :
    Written.fieldsAt? depth (writtenFields fields) = some fields := by
  induction fields with
  | nil => rfl
  | cons field fields ih =>
    rcases List.forall_mem_cons.mp each with ⟨first, rest⟩
    rcases field with ⟨name, value⟩
    rw [writtenFields, Written.fieldsAt?, Piece.text?_ofText, first, ih rest]
    rfl

/-- A legible value is what the document that it is written as means. -/
theorem LegibleAt.valueAt?_written (legible : LegibleAt depth value) :
    value.written.valueAt? depth = some value := by
  induction legible with
  | null | bool => rfl
  | number inRange =>
    rw [written, Number.numeral_whole, Written.valueAt?, Numeral.value?_ofInt inRange]
    rfl
  | string s =>
    rw [written, Written.valueAt?, Piece.text?_ofText]
    rfl
  | array shallow _ each =>
    rw [written, Written.valueAt?, if_neg (Nat.not_le.mpr shallow), itemsAt?_written each]
    rfl
  | object shallow sorted _ each =>
    rw [written, Written.valueAt?, if_neg (Nat.not_le.mpr shallow), fieldsAt?_written each,
      Option.map_some, sorted.ofList_eq]

/-! ## What a document means -/

mutual

/-- What a document means is legible, if its numbers are whole. -/
theorem legibleAt_of_valueAt? (document : Written) {depth : Nat} {value : Json}
    (read : document.valueAt? depth = some value) (whole : value.IsWhole) :
    LegibleAt depth value := by
  cases document with
  | null =>
    cases read
    exact .null
  | bool b =>
    cases read
    exact .bool b
  | numeral n =>
    rcases Option.map_eq_some_iff.mp read with ⟨number, value, rfl⟩
    cases whole
    exact .number (Numeral.inRange_of_value? value)
  | text pieces =>
    rcases Option.map_eq_some_iff.mp read with ⟨s, -, rfl⟩
    exact .string s
  | array items =>
    rw [Written.valueAt?] at read
    split at read
    next => cases read
    next shallow =>
      rcases Option.map_eq_some_iff.mp read with ⟨values, readItems, rfl⟩
      cases whole with
      | array all =>
        exact .array (Nat.not_le.mp shallow) fun item member =>
          legibleAt_of_itemsAt? items readItems item member (all item member)
  | object fields =>
    rw [Written.valueAt?] at read
    split at read
    next => cases read
    next shallow =>
      rcases Option.map_eq_some_iff.mp read with ⟨pairs, readFields, rfl⟩
      cases whole with
      | object all =>
        exact .object (Nat.not_le.mp shallow) (Keyed.isSorted_ofList pairs) fun pair member =>
          legibleAt_of_fieldsAt? fields readFields pair
            (Keyed.mem_of_mem_ofList member) (all pair member)

theorem legibleAt_of_itemsAt? (items : List Written) {depth : Nat} {values : List Json}
    (read : Written.itemsAt? depth items = some values) :
    ∀ value ∈ values, value.IsWhole → LegibleAt depth value := by
  cases items with
  | nil =>
    cases read
    exact List.forall_mem_nil _
  | cons item items =>
    rw [Written.itemsAt?] at read
    simp only [Option.bind_eq_bind, Option.bind_eq_some_iff] at read
    rcases read with ⟨first, readFirst, rest, readRest, same⟩
    cases same
    exact List.forall_mem_cons.mpr
      ⟨legibleAt_of_valueAt? item readFirst, legibleAt_of_itemsAt? items readRest⟩

theorem legibleAt_of_fieldsAt? (fields : List (List Piece × Written)) {depth : Nat}
    {pairs : List (String × Json)} (read : Written.fieldsAt? depth fields = some pairs) :
    ∀ pair ∈ pairs, pair.2.IsWhole → LegibleAt depth pair.2 := by
  cases fields with
  | nil =>
    cases read
    exact List.forall_mem_nil _
  | cons field fields =>
    rcases field with ⟨name, item⟩
    rw [Written.fieldsAt?] at read
    simp only [Option.bind_eq_bind, Option.bind_eq_some_iff] at read
    rcases read with ⟨key, -, first, readFirst, rest, readRest, same⟩
    cases same
    exact List.forall_mem_cons.mpr
      ⟨legibleAt_of_valueAt? item readFirst, legibleAt_of_fieldsAt? fields readRest⟩

end

/-- The names of the fields that are read are those that are written. -/
theorem mem_keys_of_fieldsAt? {fields : List (List Piece × Written)}
    {pairs : List (String × Json)} (read : Written.fieldsAt? depth fields = some pairs)
    (key : String) :
    key ∈ pairs.map Prod.fst ↔ ∃ field ∈ fields, Piece.text? field.1 = some key := by
  induction fields generalizing pairs with
  | nil =>
    cases read
    simp
  | cons field fields ih =>
    rcases field with ⟨name, item⟩
    rw [Written.fieldsAt?] at read
    simp only [Option.bind_eq_bind, Option.bind_eq_some_iff] at read
    rcases read with ⟨first, named, value, -, rest, readRest, same⟩
    cases same
    rw [List.map_cons, List.mem_cons, ih readRest, List.exists_mem_cons_iff, named,
      Option.some.injEq, eq_comm]

/-! ## Reading again -/

/-- What has been read is read again from its text without blanks. -/
theorem read?_compact_of_read? {text : String} (read : read? text = some value)
    (whole : value.IsWhole) : read? value.compact = some value := by
  rcases Option.bind_eq_some_iff.mp read with ⟨document, -, means⟩
  rw [read?, Written.read?_compact whole]
  exact (legibleAt_of_valueAt? document means whole).valueAt?_written

/-- What has been read is read again from its lines. -/
theorem read?_pretty_of_read? {text : String} (read : read? text = some value)
    (whole : value.IsWhole) : read? value.pretty = some value := by
  rcases Option.bind_eq_some_iff.mp read with ⟨document, -, means⟩
  rw [read?, Written.read?_pretty whole]
  exact (legibleAt_of_valueAt? document means whole).valueAt?_written

end TreeExport.Json

import TreeExport.Toml.Value

/-!
# Building TOML tables

A table can be opened once by a header, and keys with dots may add to tables that such keys have
opened before, but neither may go on with what the other has opened.  Each table therefore notes
whether it has been named only on the way to something else, and whether by a key with dots.
-/

namespace TreeExport.Toml

mutual

/-- What stands under a key of a table that is being built. -/
inductive Branch
  /-- A finished value, tables within braces among them. -/
  | leaf (v : Toml)
  | table (t : Table)
  /-- An array of tables, each opened by a header of its own, the last one first. -/
  | tables (last : Table) (earlier : List Table)

/-- A table that is being built. -/
inductive Table
  | mk (implicit dotted : Bool) (fields : List (String × Branch))

end

mutual

/-- The value of a branch. -/
def Branch.value : Branch → Toml
  | .leaf v => v
  | .table t => .table t.fieldValues
  | .tables last earlier => .array (Table.values earlier ++ [.table last.fieldValues])

/-- The fields of a table with their values. -/
def Table.fieldValues : Table → List (String × Toml)
  | .mk _ _ fields => Table.branchValues fields

/-- The values of branches. -/
def Table.branchValues : List (String × Branch) → List (String × Toml)
  | [] => []
  | (key, branch) :: rest => (key, branch.value) :: Table.branchValues rest

/-- The values of tables, from the last one given to the first. -/
def Table.values : List Table → List Toml
  | [] => []
  | t :: rest => Table.values rest ++ [.table t.fieldValues]

end

namespace Table

/-- A table that is opened by a header, or by nothing. -/
def empty : Table := mk false false []

/-- The table has been named only on the way to something else. -/
def implicit : Table → Bool
  | mk implicit _ _ => implicit

/-- The table has been opened by a key with dots. -/
def dotted : Table → Bool
  | mk _ dotted _ => dotted

/-- The fields. -/
def fields : Table → List (String × Branch)
  | mk _ _ fields => fields

/-- The table as one that is opened by a header. -/
def opened (t : Table) : Table := mk false false t.fields

/-- What stands under a key. -/
def find? (t : Table) (key : String) : Option Branch :=
  t.fields.lookup key

/-- Puts something under a key, in place of what stood there. -/
def put (t : Table) (key : String) (branch : Branch) : Table :=
  mk t.implicit t.dotted ((key, branch) :: t.fields.filter fun field => field.1 != key)

/-- Changes the table at the end of a path; tables that are missing on the way are made.  An array
of tables stands for its last one. -/
def changeAt (dotted : Bool) (change : Table → Option Table) : List String → Table → Option Table
  | [], t => change t
  | key :: path, t =>
    match t.find? key with
    | none => do
      let inner ← changeAt dotted change path (mk true dotted [])
      pure (t.put key (.table inner))
    | some (.leaf _) => none
    | some (.table inner) =>
      if dotted && !inner.implicit then none
      else do
        let inner ← changeAt dotted change path inner
        pure (t.put key (.table inner))
    | some (.tables last earlier) => do
      let last ← changeAt dotted change path last
      pure (t.put key (.tables last earlier))

/-- Puts a value under a new key. -/
def addNew (key : String) (value : Toml) (t : Table) : Option Table :=
  match t.find? key with
  | none => some (t.put key (.leaf value))
  | some _ => none

/-- Puts a value under a key of one or more elements. -/
def add (path : List String) (value : Toml) (t : Table) : Option Table :=
  match path.getLast? with
  | none => none
  | some key =>
    let way := path.dropLast
    changeAt true
      (fun inner => if inner.dotted = way.isEmpty then none else inner.addNew key value) way t

/-- Puts values under their keys, in turn. -/
def addAll (t : Table) : List (List String × Toml) → Option Table
  | [] => some t
  | (path, value) :: rest => (t.add path value).bind (addAll · rest)

/-- Opens a table under a new key, or one that has only been named on the way to something else,
and fills it. -/
def openAt (key : String) (pairs : List (List String × Toml)) (t : Table) : Option Table := do
  let inner ← match t.find? key with
    | none => some empty
    | some (.table inner) => if inner.implicit && !inner.dotted then some inner.opened else none
    | some _ => none
  pure (t.put key (.table (← inner.addAll pairs)))

/-- Adds a table to the array of tables under a key and fills it. -/
def extendAt (key : String) (pairs : List (List String × Toml)) (t : Table) : Option Table := do
  let earlier ← match t.find? key with
    | none => some []
    | some (.tables last earlier) => some (last :: earlier)
    | some _ => none
  pure (t.put key (.tables (← empty.addAll pairs) earlier))

end Table

/-- The line in brackets at the top of a section. -/
inductive Header
  | table (path : List String)
  /-- One more table of an array of tables. -/
  | element (path : List String)
  deriving Repr, DecidableEq

/-- Puts a section into a table. -/
def Header.apply (header : Header) (pairs : List (List String × Toml)) (t : Table) :
    Option Table :=
  match header with
  | table path => do
    Table.changeAt false (Table.openAt (← path.getLast?) pairs) path.dropLast t
  | element path => do
    Table.changeAt false (Table.extendAt (← path.getLast?) pairs) path.dropLast t

/-- A document: the pairs before the first header, and sections. -/
structure Document where
  top : List (List String × Toml) := []
  sections : List (Header × List (List String × Toml)) := []
  deriving Repr

/-- The fields of the document. -/
def Document.fields? (document : Document) : Option (List (String × Toml)) := do
  let top ← Table.empty.addAll document.top
  let whole ← document.sections.foldlM (fun t (header, pairs) => header.apply pairs t) top
  pure whole.fieldValues

end TreeExport.Toml

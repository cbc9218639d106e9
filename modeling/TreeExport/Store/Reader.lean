import TreeExport.Store.Writer

/-!
# Reading stores

A reader opens a published store by its manifest.  It lists the entries and checks the digest of
their file against the manifest.
-/

namespace TreeExport

/-- A reader of a store. -/
structure Store.Reader where
  directory : String
  manifest : Manifest
  deriving Repr, DecidableEq

namespace Store.Reader

/-- Why a reader refuses. -/
inductive Refusal
  | unpublished (directory : String)
  | unsupported (version : Nat)
  | mismatch (path expected found : String)
  deriving Repr, DecidableEq

/-- The wording of a refusal. -/
def Refusal.message : Refusal → String
  | unpublished directory => s!"{directory} does not contain a published store"
  | unsupported version =>
    s!"store format version {version} not supported (max {Manifest.currentVersion})"
  | mismatch path expected found =>
    s!"checksum mismatch for {path}: expected {expected}, found {found}"

/-- A refusal as a failure. -/
def Refusal.toError (refusal : Refusal) : Error :=
  .storage refusal.message

/-- The directory holds a published store. -/
def isPublished (directory : String) : FileTask Bool :=
  FileTask.isFile (Store.manifestPath directory)

/-- Opens a published store. -/
def openAt (directory : String) : FileTask Store.Reader := do
  if !(← isPublished directory) then throw (Refusal.toError (.unpublished directory))
  match Manifest.read? (← FileTask.readText (Store.manifestPath directory)) with
  | none => throw (.serialization "malformed manifest")
  | some manifest =>
    if Manifest.currentVersion < manifest.version then
      throw (Refusal.toError (.unsupported manifest.version))
    pure ⟨directory, manifest⟩

/-- The entries in order, and why reading stops after them if it does not stop at an end. -/
def entries (reader : Store.Reader) : FileTask Run := do
  let path := Store.dataPath reader.directory
  pure (Run.ofNode path (← FileTask.access path))

/-- Checks the digest of the file of entries. -/
def verify (reader : Store.Reader) : FileTask Unit := do
  let path := Store.dataPath reader.directory
  let found := Sha256.hash (← FileTask.readBytes path)
  if found ≠ reader.manifest.digest then
    throw (Refusal.toError (.mismatch path reader.manifest.digest found))

end Store.Reader

end TreeExport

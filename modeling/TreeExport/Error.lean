import TreeExport.Text.Quoted

/-!
# What can go wrong

`Error` lists the kinds of failure of a dump and of the library's smaller parts; `Error.message`
is the wording.  `Error.stage` records the stage in which a failure arose and never puts a second
stage around it.
-/

namespace TreeExport

/-- A stage of a dump: the download, a transform worker by its number, or sort-and-store. -/
inductive Stage
  | download
  | transform (worker : Nat)
  | sortAndStore
  deriving Repr, DecidableEq

/-- The name of a stage. -/
def Stage.name : Stage → String
  | download => "download"
  | transform worker => s!"transform-{worker}"
  | sortAndStore => "sort-and-store"

/-- A failure. -/
inductive Error
  /-- The configuration asks for what cannot be. -/
  | config (message : String)
  /-- The source of records failed. -/
  | source (message : String)
  /-- The store is not what it should be. -/
  | storage (message : String)
  /-- A file operation failed. -/
  | file (path : String) (reason : String)
  /-- Data break a rule. -/
  | validation (message : String)
  /-- A text is no record or no manifest. -/
  | serialization (message : String)
  /-- Another stage asked this one to stop. -/
  | cancelled
  /-- A stage failed. -/
  | inStage (stage : Stage) (cause : Error)
  deriving Repr, DecidableEq

namespace Error

/-- The wording of a failure. -/
def message : Error → String
  | config text => s!"config error: {text}"
  | source text => s!"source error: {text}"
  | storage text => s!"storage error: {text}"
  | file path reason => s!"I/O error at {Text.quoted path}: {reason}"
  | validation text => s!"validation error: {text}"
  | serialization text => s!"serialization error: {text}"
  | cancelled => "cancelled"
  | inStage stage cause => s!"{stage.name} stage failed: {cause.message}"

/-- The failure as one of `stage`, unless it is one of a stage already. -/
def stage (stage : Stage) : Error → Error
  | inStage first cause => inStage first cause
  | other => inStage stage other

/-- The stage that failed. -/
def failedStage? : Error → Option Stage
  | inStage stage _ => some stage
  | _ => none

/-- The failure is that another stage asked to stop. -/
def isCancelled : Error → Bool
  | cancelled => true
  | inStage _ cause => cause.isCancelled
  | _ => false

/-- The wording of what lies behind a failure. -/
def cause? : Error → Option String
  | file _ reason => some reason
  | inStage _ cause => some cause.message
  | _ => none

/-- A second stage changes nothing. -/
@[simp] theorem stage_stage (first second : Stage) (e : Error) :
    stage second (stage first e) = stage first e := by
  cases e <;> rfl

end Error

/-! ## Failures in another form -/

section MapError

variable {α ε ε' : Type} (form : ε → ε')

@[simp] theorem mapError_ok (answer : α) :
    (Except.ok answer : Except ε α).mapError form = .ok answer := rfl

@[simp] theorem mapError_error (failure : ε) :
    (Except.error failure : Except ε α).mapError form = .error (form failure) := rfl

end MapError

end TreeExport

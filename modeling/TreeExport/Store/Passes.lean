import TreeExport.Files.Program
import TreeExport.Hash.Sha256
import TreeExport.Store.Merge

/-!
# Merging files in passes

No more than a number of files, the fan-in, are merged at once.  Where there are more, consecutive
groups of them are merged into intermediate files, pass by pass, until one group is left.  Which
files are merged into which does not depend on what they hold, so a `MergePlan` is made beforehand
and then carried out.  Files of a pass are removed as soon as they are merged; the files that the
first pass starts from are not.
-/

namespace TreeExport

/-- Consecutive groups of `size + 1` items, the last of which may be smaller. -/
def groupsOf {α : Type} (size : Nat) : List α → List (List α)
  | [] => []
  | item :: rest => (item :: rest.take size) :: groupsOf size (rest.drop size)
termination_by items => items.length
decreasing_by simp only [List.length_drop, List.length_cons]; omega

/-- Groups of at least two make fewer groups than there are items. -/
theorem length_groupsOf_lt {α : Type} (size : Nat) (items : List α)
    (many : size + 2 < items.length) : (groupsOf (size + 1) items).length < items.length := by
  have bound : ∀ items : List α,
      2 * (groupsOf (size + 1) items).length ≤ items.length + 1 := by
    intro items
    fun_induction groupsOf (size + 1) items with
    | case1 => simp
    | case2 item rest ih =>
      simp only [List.length_cons, List.length_drop] at *
      by_cases short : rest.length ≤ size + 1
      · rw [List.drop_of_length_le short] at *
        simp [groupsOf]
      · omega
  have := bound items
  omega

/-- One merge of files into an intermediate file. -/
structure MergeStep where
  inputs : List String
  output : String
  /-- The inputs are intermediate files. -/
  disposable : Bool
  deriving Repr, DecidableEq

/-- Which files are merged, in turn, and which are left for the last merge. -/
structure MergePlan where
  steps : List MergeStep
  last : List String
  /-- The files left are intermediate files. -/
  disposable : Bool
  deriving Repr, DecidableEq

namespace MergePlan

/-- The path of the intermediate file of a group in a pass. -/
def intermediatePath (directory : String) (pass group : Nat) : String :=
  Path.join directory s!"merge-{Decimal.padded 3 pass}-{Decimal.padded 6 group}.dat"

/-- The passes that files need from a pass on, where `fanIn + 2` files are merged at once. -/
def passes (directory : String) (fanIn pass : Nat) (disposable : Bool) (files : List String) :
    MergePlan :=
  if _many : fanIn + 2 < files.length then
    let groups := groupsOf (fanIn + 1) files
    let outputs := (List.range groups.length).map (intermediatePath directory pass)
    let more := passes directory fanIn (pass + 1) true outputs
    { more with
      steps := (groups.zip outputs).map (fun (inputs, output) => ⟨inputs, output, disposable⟩) ++
        more.steps }
  else ⟨[], files, disposable⟩
termination_by files.length
decreasing_by
  simp only [List.length_map, List.length_range]
  exact length_groupsOf_lt fanIn files _many

/-- The plan for a fan-in, which counts as two if it is less. -/
def make (directory : String) (fanIn : Nat) (files : List String) : MergePlan :=
  passes directory (fanIn - 2) 1 false files

end MergePlan

/-- A file that entries are written to: its path, the number of entries and the digest of the bytes
so far. -/
structure Output where
  path : String
  entries : Nat := 0
  digest : Sha256 := {}
  deriving Repr, DecidableEq

namespace Output

/-- Writes an entry. -/
def write (output : Output) (entry : StoredEntry) : FileTask Output := do
  match entry.encode with
  | .error reason => throw (.storage s!"merge write failed: {reason.message}")
  | .ok bytes =>
    FileTask.change output.path (.extend output.path bytes)
    pure ⟨output.path, output.entries + 1, output.digest.update bytes⟩

/-- Writes entries in turn. -/
def writeAll (output : Output) : List StoredEntry → FileTask Output
  | [] => pure output
  | entry :: rest => do
    let output ← output.write entry
    output.writeAll rest

end Output

namespace Run

/-- The run that a file holds; a directory can be opened but not read. -/
def ofNode (path : String) : Node → Run
  | .file content =>
    let reading := Reading.ofBytes content
    ⟨path, reading.entries, reading.fault.map (·.message)⟩
  | .directory => ⟨path, [], some Fault.isDirectory.message⟩

/-- Opens files in turn. -/
def openFiles : List String → FileTask (List Run)
  | [] => pure []
  | path :: rest => do
    let node ← FileTask.access path
    let runs ← openFiles rest
    pure (ofNode path node :: runs)

end Run

namespace MergePlan

/-- Merges files into an output that is there already. -/
def mergeInto (output : Output) (inputs : List String) : FileTask Output := do
  let merging := Merging.ofRuns (← Run.openFiles inputs)
  let output ← output.writeAll merging.entries
  match merging.fault with
  | some fault => throw fault.toError
  | none => pure output

/-- Removes files in turn. -/
def removeAll : List String → FileTask Unit
  | [] => pure ()
  | path :: rest => do
    FileTask.change path (.removeFile path)
    removeAll rest

/-- Carries out steps in turn. -/
def runSteps : List MergeStep → FileTask Unit
  | [] => pure ()
  | step :: rest => do
    FileTask.change step.output (.create step.output)
    discard (mergeInto ⟨step.output, 0, {}⟩ step.inputs)
    if step.disposable then removeAll step.inputs
    runSteps rest

/-- Carries out a plan, with the last merge into an output that is there already. -/
def run (plan : MergePlan) (output : Output) : FileTask Output := do
  runSteps plan.steps
  let output ← mergeInto output plan.last
  if plan.disposable then removeAll plan.last
  pure output

end MergePlan

end TreeExport

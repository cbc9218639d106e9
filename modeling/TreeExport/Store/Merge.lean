import TreeExport.Error
import TreeExport.Store.Entry
import TreeExport.Total

/-!
# Merging sorted runs

A merge takes entries out of several runs, always the one of least path, and of equal paths the one
of the first run.  It stops at a run that cannot be read on or whose paths go down; what it has
taken out until then has been written.  `Merging.ofRuns` is the whole merge as one value.
-/

namespace TreeExport

/-- Entries to be merged: where they come from, and why reading stops after them if it does not
stop at an end. -/
structure Run where
  path : String
  entries : List StoredEntry
  fault : Option String
  deriving Repr, DecidableEq

/-- Why a merge stops. -/
inductive MergeFault
  | unreadable (path reason : String)
  | unsorted (path next previous : String)
  deriving Repr, DecidableEq

/-- The fault as a failure. -/
def MergeFault.toError : MergeFault → Error
  | unreadable path reason => .file path reason
  | unsorted path next previous =>
    .storage s!"segment {path} is not sorted: '{next}' after '{previous}'"

/-- A run with an entry taken out, which is not yet written. -/
structure Cursor where
  entry : StoredEntry
  rest : Run
  deriving Repr, DecidableEq

namespace Run

/-- Takes the next entry out of a run, if it has one. -/
def open? (run : Run) : Except MergeFault (Option Cursor) :=
  match run.entries, run.fault with
  | entry :: rest, _ => .ok (some ⟨entry, { run with entries := rest }⟩)
  | [], some reason => .error (.unreadable run.path reason)
  | [], none => .ok none

end Run

namespace Cursor

/-- Goes on to the next entry of the run, if it has one.  Its path must not be less. -/
def next (cursor : Cursor) : Except MergeFault (Option Cursor) := do
  match ← cursor.rest.open? with
  | none => pure none
  | some later =>
    if later.entry.path < cursor.entry.path then
      throw (.unsorted cursor.rest.path later.entry.path cursor.entry.path)
    else pure (some later)

/-- The number of entries that a cursor stands for. -/
def count (cursor : Cursor) : Nat :=
  cursor.rest.entries.length + 1

/-- The cursor of least path, of equal ones the first, with those before it and those after it. -/
def least? : List Cursor → Option (List Cursor × Cursor × List Cursor)
  | [] => none
  | cursor :: rest =>
    match least? rest with
    | some (before, least, after) =>
      if least.entry.path < cursor.entry.path then some (cursor :: before, least, after)
      else some ([], cursor, rest)
    | none => some ([], cursor, rest)

theorem eq_of_least? {cursors before after : List Cursor} {least : Cursor}
    (found : least? cursors = some (before, least, after)) :
    cursors = before ++ least :: after := by
  induction cursors generalizing before with
  | nil => simp [least?] at found
  | cons cursor rest ih =>
    unfold least? at found
    split at found
    · next before' least' after' deeper =>
      split at found
      · cases found
        simp [ih deeper]
      · cases found
        rfl
    · cases found
      rfl

theorem count_next {cursor later : Cursor} (moved : cursor.next = .ok (some later)) :
    later.count < cursor.count := by
  obtain ⟨entry, path, entries, fault⟩ := cursor
  cases entries with
  | nil => cases fault <;> simp [next, Run.open?, bind, Except.bind, pure, Except.pure] at moved
  | cons following rest =>
    simp only [next, Run.open?, bind, Except.bind] at moved
    split at moved
    · cases moved
    · cases moved
      simp [count]

end Cursor

/-- What merging yields: the entries that are written, and why it stopped if it did not come to its
end. -/
structure Merging where
  entries : List StoredEntry
  fault : Option MergeFault
  deriving Repr, DecidableEq

namespace Merging

/-- Merges from given cursors on. -/
def ofCursors (cursors : List Cursor) : Merging :=
  match _choice : Cursor.least? cursors with
  | none => ⟨[], none⟩
  | some (before, least, after) =>
    match _step : least.next with
    | .error fault => ⟨[least.entry], some fault⟩
    | .ok later =>
      let more := ofCursors (before ++ (later.toList ++ after))
      ⟨least.entry :: more.entries, more.fault⟩
termination_by total (cursors.map Cursor.count)
decreasing_by
  rw [Cursor.eq_of_least? _choice]
  cases later with
  | none => simp [Cursor.count]
  | some moved =>
    have := Cursor.count_next _step
    simp
    omega

/-- Opens runs in turn. -/
def openAll : List Run → Except MergeFault (List Cursor)
  | [] => .ok []
  | run :: rest => do
    let cursor ← run.open?
    let cursors ← openAll rest
    pure (cursor.toList ++ cursors)

/-- Merges runs.  Nothing is written before all of them are open. -/
def ofRuns (runs : List Run) : Merging :=
  match openAll runs with
  | .ok cursors => ofCursors cursors
  | .error fault => ⟨[], some fault⟩

end Merging

end TreeExport

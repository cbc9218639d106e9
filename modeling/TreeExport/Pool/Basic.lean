import TreeExport.EntryBatch
import TreeExport.Queue

/-!
# The pool of buffers

A fixed number of buffers moves between two queues: workers take empty ones and submit full ones,
sort-and-store takes full ones and returns them empty.  A buffer is moved through the queues, so
it is in one place at a time.  The pool also counts how many buffers are in each place; every
transfer takes one from one count and adds one to another.
-/

namespace TreeExport

/-- A buffer: a batch that is filled and emptied again and again.  A pool numbers its own. -/
structure Buffer where
  number : Option Nat
  batch : EntryBatch
  deriving Repr, DecidableEq

/-- What sort-and-store receives. -/
inductive FullItem
  | buffer (buffer : Buffer)
  /-- No buffer comes after this. -/
  | endOfInput
  deriving Repr, DecidableEq

namespace Pool

/-- Where a buffer can be. -/
inductive Slot
  | empty
  | full
  | held
  | released
  deriving Repr, DecidableEq

/-- The numbers of buffers by place. -/
structure Counts where
  empty : Nat
  full : Nat := 0
  held : Nat := 0
  released : Nat := 0
  deriving Repr, DecidableEq

namespace Counts

/-- The number of buffers in a place. -/
def get (counts : Counts) : Slot → Nat
  | .empty => counts.empty
  | .full => counts.full
  | .held => counts.held
  | .released => counts.released

/-- Sets the number of buffers in a place. -/
def set (counts : Counts) (slot : Slot) (n : Nat) : Counts :=
  match slot with
  | .empty => { counts with empty := n }
  | .full => { counts with full := n }
  | .held => { counts with held := n }
  | .released => { counts with released := n }

/-- Moves one buffer from one count to another.  Nothing is taken from a count of zero. -/
def transfer (counts : Counts) (source target : Slot) : Counts :=
  let left := counts.set source (counts.get source - 1)
  left.set target (left.get target + 1)

/-- The number of all buffers. -/
def total (counts : Counts) : Nat :=
  counts.empty + counts.full + counts.held + counts.released

end Counts

end Pool

/-- A pool of buffers. -/
structure Pool where
  size : Nat
  empties : Queue Buffer
  fulls : Queue FullItem
  counts : Pool.Counts
  /-- The end of input has been signalled. -/
  ended : Bool := false
  deriving Repr

namespace Pool

/-- A pool of `size` empty buffers.  Its queue of full buffers has one place more, so that the end
of input never waits for a place. -/
def create (size capacity maxEntries : Nat) : Pool where
  size := size
  empties :=
    { capacity := size
      items := (List.range size).map fun n => ⟨some n, .empty capacity maxEntries⟩ }
  fulls := { capacity := size + 1 }
  counts := { empty := size }

/-- The counts add up to the number of buffers. -/
def isConserved (pool : Pool) : Bool :=
  pool.counts.total == pool.size

/-- Moves one buffer from one count to another. -/
def transfer (pool : Pool) (source target : Slot) : Pool :=
  { pool with counts := pool.counts.transfer source target }

end Pool

end TreeExport

import TreeExport.Proofs.Dump.Accounts
import TreeExport.Proofs.Dump.Greedy
import TreeExport.Proofs.Dump.Relay
import TreeExport.Proofs.Dump.Stock
import TreeExport.Proofs.Pool.Counts

/-!
# Journals of workers

A worker receives batches of records and submits buffers while everything around it goes on.  Its
journal keeps what it has received and submitted.  `Worker.Journal.Follows` says how far the worker
has come that was only to go through its records one after the other; each lemma here is about one
thing that it does on the way.
-/

namespace TreeExport

variable {extraction : Extraction} {capacity maxEntries : Nat}

/-! ## Operations on the pool -/

namespace Pool

/-- The buffer that an operation is about to submit. -/
def Call.offered : Call → List Buffer
  | .submit buffer => [buffer]
  | .countFull buffer => [buffer]
  | .offerFull buffer _ => [buffer]
  | _ => []

/-- The buffer that is still to be submitted after a step. -/
def Progress.offered : Progress → List Buffer
  | .going call => call.offered
  | .answered _ => []

/-- What a worker does with the pool while nobody stops it: it acquires blank buffers, and submits
others. -/
def Call.IsFit (capacity maxEntries : Nat) : Call → Prop
  | .takeEmpty _ => True
  | .tookEmpty buffer => buffer.IsBlank capacity maxEntries
  | .submit _ => True
  | .countFull _ => True
  | .offerFull _ _ => True
  | _ => False

/-- The operation goes on as it should, or is answered well. -/
def Progress.IsFit (capacity maxEntries : Nat) : Progress → Prop
  | .going call => call.IsFit capacity maxEntries
  | .answered (.ok (.buffer buffer)) => buffer.IsBlank capacity maxEntries
  | .answered (.ok _) => True
  | .answered (.error _) => False

variable {pool after : Pool} {call : Call} {progress : Progress}

/-- As long as nobody stops it, an operation of a worker does not fail, and puts the buffer that it
offers into the queue of full ones. -/
theorem Call.Advances.hands (step : Advances pool false call after progress)
    (fit : call.IsFit capacity maxEntries) (goesOn : pool.ended = false)
    (blank : ∀ buffer ∈ pool.empties.items, buffer.IsBlank capacity maxEntries) :
    progress.IsFit capacity maxEntries ∧ ∃ given,
      after.fulls.items = pool.fulls.items ++ given.map .buffer ∧
        given ++ progress.offered = call.offered := by
  have keeps {items : List FullItem} : items = items ++ ([] : List Buffer).map .buffer :=
    (List.append_nil _).symm
  cases step with
  | acquireReady => exact ⟨trivial, [], keeps, rfl⟩
  | acquireFirst first =>
    refine ⟨blank _ ?_, [], keeps, rfl⟩
    rw [first]
    exact List.mem_cons_self
  | acquired buffer => exact ⟨fit, [], keeps, rfl⟩
  | submitLate buffer ended =>
    rw [ended] at goesOn
    cases goesOn
  | submit buffer => exact ⟨trivial, [], keeps, rfl⟩
  | countFull buffer => exact ⟨trivial, [], keeps, rfl⟩
  | submitReady buffer => exact ⟨trivial, [], keeps, rfl⟩
  | submitted buffer => exact ⟨trivial, [buffer], rfl, rfl⟩
  | acquireStopped set => cases set
  | submitStopped buffer set => cases set
  | _ => exact fit.elim

end Pool

/-! ## Journals -/

/-- What a worker may find around it: nobody has left, the input has not ended, and the buffers in the
queue of empty ones are blank. -/
structure Shared.Suits (capacity maxEntries : Nat) (shared : Shared) : Prop where
  isOpen : shared.IsOpen
  goesOn : shared.pool.ended = false
  blank : ∀ buffer ∈ shared.pool.empties.items, buffer.IsBlank capacity maxEntries

namespace Worker

/-- There is what the worker waits for. -/
structure IsServed (worker : Worker) (shared : Shared) : Prop where
  receives : worker.phase = .receiving .wait → shared.raw.items ≠ []
  forwards : worker.phase = .forwarding .wait → shared.raw.items.length < shared.raw.capacity
  acquires : ∀ path payload rest,
    worker.phase = .acquiring (.takeEmpty .wait) path payload rest →
      shared.pool.empties.items ≠ []
  room : 0 < worker.held → shared.pool.empties.items.length < shared.pool.empties.capacity ∧
    shared.pool.fulls.items.length < shared.pool.fulls.capacity

/-- The buffer that a worker is about to submit. -/
def offered (worker : Worker) : List Buffer :=
  match worker.call? with
  | some call => call.offered
  | none => []

/-- The worker has begun to give up its last buffer. -/
def hasFlushed (worker : Worker) : Bool :=
  match worker.phase with
  | .givingUp _ => true
  | .finished => true
  | _ => false

/-- A worker with what it has received and what it has submitted so far, and how often it has looked
for a place for its last entry. -/
structure Journal where
  worker : Worker
  received : List RawItem := []
  submitted : List Buffer := []
  rounds : Nat := 0

namespace Journal

/-- How often the worker will have looked for a place for its last entry after its next step. -/
def roundsNext (journal : Journal) : Nat :=
  match journal.worker.phase, journal.worker.current with
  | .processing (_ :: _), _ => 0
  | .placing _ _ _, some _ => journal.rounds + 1
  | _, _ => journal.rounds

/-- The journal after a step. -/
def note (journal : Journal) (found : Shared) (after : Worker) (left : Shared) : Journal where
  worker := after
  received := journal.received ++ found.raw.lost left.raw
  submitted := journal.submitted ++
    (found.pool.fulls.gained left.pool.fulls).flatMap FullItem.buffers
  rounds := journal.roundsNext

/-- The journal after the worker has found something around it; if it has to wait, it is as before. -/
def next (extraction : Extraction) (journal : Journal) (found : Shared) : Journal :=
  match journal.worker.step? extraction .queue found with
  | some (after, left) => journal.note found after left
  | none => journal

/-- The journal of a worker up to some time, if it is known what it finds around it at each. -/
def upTo (extraction : Extraction) (id : Nat) (found : Nat → Shared) : Nat → Journal
  | 0 => { worker := { id := id } }
  | time + 1 => (upTo extraction id found time).next extraction (found time)

/-- The records that the worker has received. -/
def records (journal : Journal) : List Record :=
  journal.received.flatMap RawItem.records

/-- The batches of the buffers that the worker has submitted. -/
def batches (journal : Journal) : List EntryBatch :=
  journal.submitted.map Buffer.batch

/-- What the worker has packed, with what it is about to submit. -/
def packing (journal : Journal) : Packing where
  full := (journal.submitted ++ journal.worker.offered).map Buffer.batch
  current := journal.worker.current.map Buffer.batch

/-- The worker is done with some records, and about to take up the next or to flush. -/
structure Between (extraction : Extraction) (capacity maxEntries : Nat) (journal : Journal)
    (done : List Record) : Prop where
  well : journal.worker.IsWell
  idle : journal.worker.pending? = none
  keeps : journal.worker.hasFlushed = false
  records : journal.records = done ++ journal.worker.left
  flawless : ∀ record ∈ done, extraction.flaw? capacity maxEntries record = none
  packing : journal.packing = extraction.packing capacity maxEntries done
  statistics : journal.worker.statistics = done.foldl extraction.count {}
  rounds : journal.rounds ≤ 2

/-- The worker looks for a place for the entry of a record.  Wherever it finds one, its packing will
be the one that the entry is added to. -/
structure Within (extraction : Extraction) (capacity maxEntries : Nat) (journal : Journal)
    (done : List Record) (record : Record) (entry : StoredEntry) : Prop where
  waits : journal.worker.pending? = some (entry.path, entry.payload)
  makes : extraction.Makes record entry
  records : journal.records = done ++ record :: journal.worker.left
  flawless : ∀ record ∈ done, extraction.flaw? capacity maxEntries record = none
  packing : entry.Fits capacity → journal.packing.add capacity maxEntries entry =
    (extraction.packing capacity maxEntries done).add capacity maxEntries entry
  statistics : journal.worker.statistics.addAccepted entry.payload.length =
    (done ++ [record]).foldl extraction.count {}
  rounds : journal.rounds ≤ 1
  packed : ∀ buffer, journal.worker.current = some buffer →
    ∃ group, EntryBatch.Packs capacity maxEntries buffer.batch group
  fresh : ∀ buffer, journal.worker.current = some buffer → buffer.batch.isEmpty = false →
    journal.rounds = 0

/-- The worker is done with all its records, and has given up its last buffer or is about to. -/
structure Flushed (extraction : Extraction) (capacity maxEntries : Nat) (journal : Journal) :
    Prop where
  gone : journal.worker.hasFlushed = true
  empty : journal.worker.current = none
  flawless : ∀ record ∈ journal.records, extraction.flaw? capacity maxEntries record = none
  packing : journal.packing.full =
    (extraction.packing capacity maxEntries journal.records).batches
  statistics : journal.worker.statistics = journal.records.foldl extraction.count {}
  rounds : journal.rounds ≤ 2

/-- The worker has failed over the first record with a flaw. -/
structure Blames (extraction : Extraction) (capacity maxEntries : Nat) (journal : Journal)
    (cause : Error) : Prop where
  phase : journal.worker.phase = .failed cause
  first : journal.records.findSome? (extraction.flaw? capacity maxEntries) = some cause
  rounds : journal.rounds ≤ 2

/-- How far a worker has come that goes through its records, one after the other. -/
inductive Follows (extraction : Extraction) (capacity maxEntries : Nat) (journal : Journal) : Prop
  | between {done : List Record} (between : journal.Between extraction capacity maxEntries done)
  | within {done : List Record} {record : Record} {entry : StoredEntry}
      (within : journal.Within extraction capacity maxEntries done record entry)
  | flushed (flushed : journal.Flushed extraction capacity maxEntries)
  | failed {cause : Error} (blames : journal.Blames extraction capacity maxEntries cause)

/-- The journal of a worker that nobody has stopped. -/
structure IsSound (extraction : Extraction) (capacity maxEntries : Nat) (journal : Journal) :
    Prop where
  shaped : journal.worker.IsShaped
  clear : journal.worker.cancelled = false
  calls : ∀ call, journal.worker.call? = some call → call.IsFit capacity maxEntries
  marked : journal.worker.IsWell → (0 < journal.worker.sees ↔ .endOfStream ∈ journal.received)
  follows : journal.Follows extraction capacity maxEntries

variable {journal later : Journal} {found left : Shared} {after : Worker} {done : List Record}

theorem isSound_start (id : Nat) :
    IsSound extraction capacity maxEntries { worker := { id := id } } := by
  have nothing : ∀ record ∈ ([] : List Record),
      extraction.flaw? capacity maxEntries record = none := nofun
  exact ⟨trivial, rfl, nofun, fun _ => ⟨nofun, nofun⟩,
    .between ⟨by rintro _ ⟨⟩, rfl, rfl, rfl, nothing, rfl, rfl, Nat.zero_le 2⟩⟩

/-! ## What a step changes -/

theorem records_note (taken : List RawItem) (raw : found.raw.items = taken ++ left.raw.items) :
    (journal.note found after left).records =
      journal.records ++ taken.flatMap RawItem.records := by
  rw [Journal.records, note, Queue.lost_of_suffix taken raw, List.flatMap_append]
  rfl

/-- Passing the marker on takes nothing from the queue. -/
theorem records_note_of_append {more : List RawItem}
    (raw : left.raw.items = found.raw.items ++ more) :
    (journal.note found after left).records = journal.records := by
  rw [Journal.records, note, Queue.lost_of_append raw, List.append_nil]
  rfl

theorem submitted_note {given : List Buffer}
    (fulls : left.pool.fulls.items = found.pool.fulls.items ++ given.map .buffer) :
    (journal.note found after left).submitted = journal.submitted ++ given := by
  have buffers : (given.map FullItem.buffer).flatMap FullItem.buffers = given := by
    rw [List.flatMap_map]
    exact List.flatMap_singleton' given
  rw [note, Queue.gained_of_append fulls, buffers]

/-- Most steps leave both queues as they are. -/
theorem follows_of_quiet (raw : left.raw = found.raw) (fulls : left.pool.fulls = found.pool.fulls)
    (follows : Follows extraction capacity maxEntries
      { journal with worker := after, rounds := journal.roundsNext }) :
    (journal.note found after left).Follows extraction capacity maxEntries := by
  have nothingTaken : found.raw.lost left.raw = [] :=
    Queue.lost_of_same (by rw [raw])
  have nothingGiven : found.pool.fulls.gained left.pool.fulls = [] :=
    Queue.gained_of_append (by rw [fulls, List.append_nil])
  rw [note, nothingTaken, nothingGiven, List.flatMap_nil, List.append_nil, List.append_nil]
  exact follows

theorem packing_of_idle (idle : journal.worker.call? = none) :
    journal.packing = ⟨journal.batches, journal.worker.current.map Buffer.batch⟩ := by
  simp only [packing, offered, idle, List.append_nil, batches]

/-- Nothing changes that the worker has gone through. -/
theorem Follows.congr (follows : journal.Follows extraction capacity maxEntries)
    (runs : journal.worker.IsWell) (well : later.worker.IsWell)
    (current : later.worker.current = journal.worker.current)
    (statistics : later.worker.statistics = journal.worker.statistics)
    (rounds : later.rounds = journal.rounds)
    (records : later.records = journal.records)
    (left : later.worker.left = journal.worker.left)
    (pending : later.worker.pending? = journal.worker.pending?)
    (flushed : later.worker.hasFlushed = journal.worker.hasFlushed)
    (offered : later.submitted ++ later.worker.offered =
      journal.submitted ++ journal.worker.offered) :
    later.Follows extraction capacity maxEntries := by
  have packing : later.packing = journal.packing := by
    rw [Journal.packing, Journal.packing, offered, current]
  cases follows with
  | between it =>
    refine .between ⟨well, pending.trans it.idle, flushed.trans it.keeps, ?_, it.flawless,
      packing.trans it.packing, statistics.trans it.statistics, rounds ▸ it.rounds⟩
    rw [records, left, it.records]
  | within it =>
    refine .within ⟨pending.trans it.waits, it.makes, ?_, it.flawless, ?_, ?_, rounds ▸ it.rounds,
      ?_, ?_⟩
    · rw [records, left, it.records]
    · rw [packing]
      exact it.packing
    · rw [statistics]
      exact it.statistics
    · rw [current]
      exact it.packed
    · rw [current, rounds]
      exact it.fresh
  | flushed it =>
    refine .flushed ⟨flushed.trans it.gone, current.trans it.empty, ?_, ?_, ?_, rounds ▸ it.rounds⟩
    · rw [records]
      exact it.flawless
    · rw [packing, records]
      exact it.packing
    · rw [statistics, records]
      exact it.statistics
  | failed it => exact absurd it.phase (runs _)

/-- The worker only goes on, or hands on what it offers. -/
theorem Follows.quiet {given : List Buffer} (follows : journal.Follows extraction capacity maxEntries)
    (runs : journal.worker.IsWell) (well : after.IsWell)
    (records : (journal.note found after left).records = journal.records)
    (fulls : left.pool.fulls.items = found.pool.fulls.items ++ given.map .buffer)
    (current : after.current = journal.worker.current)
    (statistics : after.statistics = journal.worker.statistics)
    (rounds : journal.roundsNext = journal.rounds)
    (rest : after.left = journal.worker.left)
    (pending : after.pending? = journal.worker.pending?)
    (flushed : after.hasFlushed = journal.worker.hasFlushed)
    (offered : given ++ after.offered = journal.worker.offered) :
    (journal.note found after left).Follows extraction capacity maxEntries := by
  refine follows.congr runs well current statistics rounds records rest pending flushed ?_
  rw [submitted_note fulls, ← offered, List.append_assoc]
  rfl

theorem pending?_of_placing {worker : Worker} {path : String} {payload : Bytes}
    {rest : List Record} (phase : worker.phase = .placing path payload rest) :
    worker.pending? = some (path, payload) := by
  simp only [pending?, phase]

theorem pending?_of_acquiring {worker : Worker} {call : Pool.Call} {path : String}
    {payload : Bytes} {rest : List Record}
    (phase : worker.phase = .acquiring call path payload rest) :
    worker.pending? = some (path, payload) := by
  simp only [pending?, phase]

theorem Follows.exists_between (follows : journal.Follows extraction capacity maxEntries)
    (well : journal.worker.IsWell) (idle : journal.worker.pending? = none)
    (keeps : journal.worker.hasFlushed = false) :
    ∃ done, journal.Between extraction capacity maxEntries done := by
  cases follows with
  | between it => exact ⟨_, it⟩
  | within it => cases idle.symm.trans it.waits
  | flushed it => cases keeps.symm.trans it.gone
  | failed it => exact absurd it.phase (well _)

theorem Follows.exists_within {path : String} {payload : Bytes}
    (follows : journal.Follows extraction capacity maxEntries)
    (waits : journal.worker.pending? = some (path, payload)) :
    ∃ done record entry, journal.Within extraction capacity maxEntries done record entry ∧
      entry.path = path ∧ entry.payload = payload := by
  cases follows with
  | between it => cases it.idle.symm.trans waits
  | @within done record entry it =>
    have same := Option.some.inj (it.waits.symm.trans waits)
    exact ⟨done, record, entry, it, congrArg Prod.fst same, congrArg Prod.snd same⟩
  | flushed it =>
    have gone := it.gone
    unfold hasFlushed at gone
    split at gone
    · simp only [pending?, ‹journal.worker.phase = _›, reduceCtorEq] at waits
    · simp only [pending?, ‹journal.worker.phase = _›, reduceCtorEq] at waits
    · cases gone
  | failed it => simp only [pending?, it.phase, reduceCtorEq] at waits

/-! ## Taking up a record -/

theorem Between.passesOver (between : journal.Between extraction capacity maxEntries done)
    {record : Record} {rest : List Record} (phase : journal.worker.phase = .processing (record :: rest))
    (wellFormed : ∀ fault, extraction.judge record ≠ .malformed fault)
    (unwanted : ∀ path, extraction.judge record ≠ .accepted path) :
    Between extraction capacity maxEntries
      { journal with
        worker := (journal.worker.counting extraction record).goTo (.processing rest)
        rounds := journal.roundsNext } (done ++ [record]) := by
  have nothing := Extraction.entry?_eq_none unwanted
  refine ⟨by rintro _ ⟨⟩, rfl, rfl, ?_, ?_, ?_, ?_, ?_⟩
  · have all := between.records
    simp only [Worker.left, phase] at all
    rw [List.append_assoc]
    exact all
  · intro other member
    rcases List.mem_append.mp member with early | last
    · exact between.flawless other early
    · rw [List.mem_singleton.mp last]
      exact Extraction.flaw?_eq_none wellFormed unwanted
  · have packed := between.packing
    rw [packing_of_idle (by simp only [call?, phase])] at packed
    rw [Extraction.packing_append_of_none nothing, packing_of_idle rfl]
    exact packed
  · rw [List.foldl_append, ← between.statistics]
    simp only [List.foldl_cons, List.foldl_nil, Extraction.count, nothing, counting, goTo]
  · simp only [roundsNext, phase, Nat.zero_le]

/-- A record that becomes an entry. -/
theorem Between.takesUp (between : journal.Between extraction capacity maxEntries done)
    (positive : 0 < maxEntries) {record : Record} {rest : List Record} {entry : StoredEntry}
    (phase : journal.worker.phase = .processing (record :: rest))
    (makes : extraction.Makes record entry) :
    Within extraction capacity maxEntries
      { journal with
        worker := (journal.worker.counting extraction record).goTo
          (.placing entry.path entry.payload rest)
        rounds := journal.roundsNext } done record entry := by
  have packed := between.packing
  rw [packing_of_idle (by simp only [call?, phase])] at packed
  have reset : journal.roundsNext = 0 := by simp only [roundsNext, phase]
  refine ⟨rfl, makes, ?_, between.flawless, fun _ => ?_, ?_, ?_, fun buffer current => ?_,
    fun _ _ _ => reset⟩
  · have all := between.records
    simp only [Worker.left, phase] at all
    exact all
  · rw [← packed, packing_of_idle rfl]
    rfl
  · rw [List.foldl_append, ← between.statistics]
    simp only [List.foldl_cons, List.foldl_nil, Extraction.count, makes.becomes, counting, goTo]
  · rw [reset]
    exact Nat.zero_le 1
  · have holds := Extraction.holds_packing positive between.flawless
    rw [← packed] at holds
    obtain ⟨group, packs, -⟩ := holds.current (congrArg (Option.map Buffer.batch) current)
    exact ⟨group, packs⟩

/-- A record with a flaw, behind others that have none. -/
theorem findSome?_of_first {records rest : List Record} {record : Record} {cause : Error}
    (all : records = done ++ record :: rest)
    (flawless : ∀ record ∈ done, extraction.flaw? capacity maxEntries record = none)
    (flaw : extraction.flaw? capacity maxEntries record = some cause) :
    records.findSome? (extraction.flaw? capacity maxEntries) = some cause := by
  rw [all, List.findSome?_append, List.findSome?_eq_none_iff.mpr flawless, Option.none_or,
    List.findSome?_cons, flaw]

theorem Between.fails (between : journal.Between extraction capacity maxEntries done)
    {record : Record} {rest : List Record} {cause : Error}
    (phase : journal.worker.phase = .processing (record :: rest))
    (flaw : extraction.flaw? capacity maxEntries record = some cause) :
    Blames extraction capacity maxEntries
      { journal with
        worker := (journal.worker.counting extraction record).goTo (.failed cause)
        rounds := journal.roundsNext } cause := by
  have all := between.records
  simp only [Worker.left, phase] at all
  refine ⟨rfl, findSome?_of_first all between.flawless flaw, ?_⟩
  simp only [roundsNext, phase, Nat.zero_le]

/-! ## Placing an entry -/

section Placing

variable {record : Record} {entry : StoredEntry} {rest : List Record} {buffer : Buffer}

theorem roundsNext_of_placing {path : String} {payload : Bytes}
    (phase : journal.worker.phase = .placing path payload rest)
    (current : journal.worker.current = some buffer) :
    journal.roundsNext = journal.rounds + 1 := by
  simp only [roundsNext, phase, current]

theorem Within.roundsNext_le
    (within : journal.Within extraction capacity maxEntries done record entry)
    (phase : journal.worker.phase = .placing entry.path entry.payload rest)
    (current : journal.worker.current = some buffer) : journal.roundsNext ≤ 2 := by
  rw [roundsNext_of_placing phase current]
  exact Nat.succ_le_succ within.rounds

/-- An entry that has been put into the buffer. -/
theorem Within.places (within : journal.Within extraction capacity maxEntries done record entry)
    (phase : journal.worker.phase = .placing entry.path entry.payload rest)
    (current : journal.worker.current = some buffer)
    (space : buffer.batch.hasSpace entry.payload.length = true)
    (small : entry.payload.length < Length.limit) :
    Between extraction capacity maxEntries
      { journal with
        worker :=
          { journal.worker with
            current := some { buffer with batch := buffer.batch.push entry.path entry.payload }
            statistics := journal.worker.statistics.addAccepted entry.payload.length
            phase := .processing rest }
        rounds := journal.roundsNext } (done ++ [record]) := by
  obtain ⟨group, packs⟩ := within.packed buffer current
  have fits : entry.Fits capacity :=
    ⟨within.makes.barless, small, packs.room_of_hasSpace space⟩
  refine ⟨by rintro _ ⟨⟩, rfl, rfl, ?_, ?_, ?_, within.statistics,
    within.roundsNext_le phase current⟩
  · have all := within.records
    simp only [Worker.left, phase] at all
    rw [List.append_assoc]
    exact all
  · intro other member
    rcases List.mem_append.mp member with early | last
    · exact within.flawless other early
    · rw [List.mem_singleton.mp last]
      exact within.makes.flaw?_of_fits fits
  · have packed := within.packing fits
    rw [packing_of_idle (by simp only [call?, phase]), current] at packed
    rw [Extraction.packing_append_of_some within.makes.becomes, ← packed, packing_of_idle rfl]
    simp only [Packing.add, Option.map_some, space, if_true]
    rfl

/-- An entry for which there is space, but whose length cannot be written. -/
theorem Within.tooLong (within : journal.Within extraction capacity maxEntries done record entry)
    (phase : journal.worker.phase = .placing entry.path entry.payload rest)
    (current : journal.worker.current = some buffer)
    (space : buffer.batch.hasSpace entry.payload.length = true)
    (long : Length.limit ≤ entry.payload.length) :
    Blames extraction capacity maxEntries
      { journal with
        worker := journal.worker.goTo
          (.failed (EntryBatch.Fault.toError (.tooLong entry.path)))
        rounds := journal.roundsNext }
      (EntryBatch.Fault.toError (.tooLong entry.path)) := by
  obtain ⟨group, packs⟩ := within.packed buffer current
  have flaw : extraction.flaw? capacity maxEntries record = _ :=
    within.makes.flaw?_of_room (packs.room_of_hasSpace space)
  rw [if_pos long] at flaw
  exact ⟨rfl, findSome?_of_first within.records within.flawless flaw,
    within.roundsNext_le phase current⟩

/-- An entry for which there is no space in an empty buffer is too large for any. -/
theorem Within.oversized (within : journal.Within extraction capacity maxEntries done record entry)
    (positive : 0 < maxEntries)
    (phase : journal.worker.phase = .placing entry.path entry.payload rest)
    (current : journal.worker.current = some buffer)
    (noSpace : buffer.batch.hasSpace entry.payload.length = false)
    (empty : buffer.batch.isEmpty = true) :
    Blames extraction capacity maxEntries
      { journal with
        worker := journal.worker.goTo
          (.failed (Worker.oversized entry.path entry.payload buffer.batch))
        rounds := journal.roundsNext }
      (Worker.oversized entry.path entry.payload buffer.batch) := by
  obtain ⟨group, packs⟩ := within.packed buffer current
  have blank := packs.eq_empty (packs.isEmpty_iff.mp empty)
  have large : capacity < Length.width + entry.payload.length := by
    rw [← Bool.not_eq_true, blank, EntryBatch.hasSpace_empty positive] at noSpace
    exact Nat.not_le.mp noSpace
  have flaw : extraction.flaw? capacity maxEntries record = _ :=
    within.makes.flaw?_of_large large
  rw [← blank] at flaw
  exact ⟨rfl, findSome?_of_first within.records within.flawless flaw,
    within.roundsNext_le phase current⟩

/-- A buffer without space for the entry is submitted before the entry begins another, which is what
the packing does. -/
theorem Within.turnsOver (within : journal.Within extraction capacity maxEntries done record entry)
    (phase : journal.worker.phase = .placing entry.path entry.payload rest)
    (current : journal.worker.current = some buffer)
    (noSpace : buffer.batch.hasSpace entry.payload.length = false)
    (nonempty : buffer.batch.isEmpty = false) :
    Within extraction capacity maxEntries
      { journal with
        worker :=
          { journal.worker with
            current := none
            phase := .submitting (.submit buffer) entry.path entry.payload rest }
        rounds := journal.roundsNext } done record entry := by
  have first : journal.roundsNext = 1 := by
    rw [roundsNext_of_placing phase current, within.fresh buffer current nonempty]
  have before : journal.packing = ⟨journal.batches, some buffer.batch⟩ := by
    rw [packing_of_idle (by simp only [call?, phase]), current]
    rfl
  refine ⟨rfl, within.makes, ?_, within.flawless, fun fits => ?_, within.statistics,
    Nat.le_of_eq first, fun _ none => (by cases none), fun _ none => (by cases none)⟩
  · have all := within.records
    simp only [Worker.left, phase] at all
    exact all
  · rw [← within.packing fits, before]
    simp only [Packing.add, noSpace, Bool.false_eq_true, if_false, Journal.packing, offered, call?,
      Pool.Call.offered, List.map_append, List.map_cons, List.map_nil, Option.map_none, batches]

end Placing

/-- A buffer that is acquired is blank, and the entry begins it. -/
theorem Within.acquires {record : Record} {entry : StoredEntry} {rest : List Record}
    {buffer : Buffer} (within : journal.Within extraction capacity maxEntries done record entry)
    (positive : 0 < maxEntries)
    (phase : journal.worker.phase = .acquiring (.tookEmpty buffer) entry.path entry.payload rest)
    (nothing : journal.worker.current = none) (blank : buffer.IsBlank capacity maxEntries) :
    Within extraction capacity maxEntries
      { journal with
        worker :=
          { journal.worker with
            current := some buffer
            phase := .placing entry.path entry.payload rest }
        rounds := journal.roundsNext } done record entry := by
  have same : journal.roundsNext = journal.rounds := by simp only [roundsNext, phase]
  have empty : buffer.batch = .empty capacity maxEntries := blank
  have before : journal.packing = ⟨journal.batches, none⟩ := by
    simp only [Journal.packing, offered, call?, phase, Pool.Call.offered, List.append_nil, nothing,
      Option.map_none, batches]
  refine ⟨rfl, within.makes, ?_, within.flawless, fun fits => ?_, within.statistics, ?_, ?_, ?_⟩
  · have all := within.records
    simp only [Worker.left, phase] at all
    exact all
  · have space := (EntryBatch.hasSpace_empty positive).mpr fits.room
    rw [← within.packing fits, before, packing_of_idle rfl]
    simp only [Packing.add, Option.map_some, empty, space, if_true]
    rfl
  · rw [same]
    exact within.rounds
  · rintro _ ⟨⟩
    exact ⟨[], empty ▸ .empty⟩
  · rintro _ ⟨⟩ nonempty
    rw [empty] at nonempty
    cases nonempty

/-! ## Receiving and flushing -/

theorem Between.receives (between : journal.Between extraction capacity maxEntries done)
    {batch : RecordBatch} {rest : List RawItem} (phase : journal.worker.phase = .receiving .wait)
    (first : found.raw.items = .batch batch :: rest) :
    Between extraction capacity maxEntries
      (journal.note found (journal.worker.goTo (.processing batch.records))
        { found with raw := { found.raw with items := rest } }) done := by
  have all : journal.records = done := by
    rw [between.records]
    simp only [Worker.left, phase, List.append_nil]
  have packed := between.packing
  rw [packing_of_idle (by simp only [call?, phase])] at packed
  have submitted : (journal.note found (journal.worker.goTo (.processing batch.records))
      { found with raw := { found.raw with items := rest } }).submitted = journal.submitted ++ [] :=
    submitted_note (List.append_nil _).symm
  refine ⟨by rintro _ ⟨⟩, rfl, rfl, ?_, between.flawless, ?_, between.statistics, ?_⟩
  · rw [records_note [.batch batch] first, all]
    exact congrArg (done ++ ·) (List.append_nil _)
  · rw [packing_of_idle rfl, batches, submitted, List.append_nil]
    exact packed
  · change journal.roundsNext ≤ 2
    simp only [roundsNext, phase, between.rounds]

/-- The last buffer is the last of the packing. -/
theorem Between.flushes (between : journal.Between extraction capacity maxEntries done)
    (phase : journal.worker.phase = .flushing) (gone : after.hasFlushed = true)
    (empty : after.current = none) (statistics : after.statistics = journal.worker.statistics)
    (last : after.offered.map Buffer.batch =
      (journal.worker.current.map Buffer.batch).toList) :
    Flushed extraction capacity maxEntries
      { journal with worker := after, rounds := journal.roundsNext } := by
  have all : journal.records = done := by
    rw [between.records]
    simp only [Worker.left, phase, List.append_nil]
  have packed := between.packing
  rw [packing_of_idle (by simp only [call?, phase])] at packed
  obtain rfl := all
  refine ⟨gone, empty, between.flawless, ?_, statistics.trans between.statistics, ?_⟩
  · refine Eq.trans ?_ (congrArg Packing.batches packed)
    simp only [Journal.packing, List.map_append, last, Packing.batches, batches]
  · simp only [roundsNext, phase, between.rounds]

end Journal

end Worker

end TreeExport

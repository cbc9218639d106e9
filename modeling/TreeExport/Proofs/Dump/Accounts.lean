import TreeExport.Proofs.Dump.Downloading
import TreeExport.Proofs.Dump.Entries
import TreeExport.Proofs.Pool.Contents

/-!
# What a worker accounts for

A worker that has received some records, taken up some of them and sent off some lists of entries
holds what is missing: records that it has not taken up, an entry on its way into a buffer, and the
entries in its buffer (`Worker.Accounts`).  Every step keeps it so (`Worker.Moves.accounts`).  If the
worker has failed, it was stopped or there is a fault with a record that it has taken up.
-/

namespace TreeExport.Worker

/-- The records that a worker has received and not taken up. -/
def left (worker : Worker) : List Record :=
  match worker.phase with
  | .processing rest => rest
  | .placing _ _ rest => rest
  | .acquiring _ _ _ rest => rest
  | .submitting _ _ _ rest => rest
  | _ => []

/-- The record that a worker is about to take up. -/
def takes (worker : Worker) : List Record :=
  match worker.phase with
  | .processing (record :: _) => [record]
  | _ => []

/-- The payload that a worker has to put into a buffer, behind its path. -/
def pending? (worker : Worker) : Option (String × Bytes) :=
  match worker.phase with
  | .placing path payload _ => some (path, payload)
  | .acquiring _ path payload _ => some (path, payload)
  | .submitting _ path payload _ => some (path, payload)
  | _ => none

/-- Of the records that have been taken up, those that are done with. -/
def settled (worker : Worker) (taken : List Record) : List Record :=
  match worker.pending? with
  | some _ => taken.dropLast
  | none => taken

/-- The entries of the buffer that a worker holds. -/
def load (worker : Worker) : List StoredEntry :=
  match worker.call? with
  | some call => call.carried.flatten
  | none => (worker.current.map fun buffer => buffer.batch.contents).getD []

/-- The buffer of a worker has been packed, and the operation that it is at is as it should be. -/
structure IsSound (capacity maxEntries : Nat) (worker : Worker) : Prop where
  current : ∀ buffer, worker.current = some buffer →
    ∃ entries, EntryBatch.Packs capacity maxEntries buffer.batch entries
  call : ∀ call, worker.call? = some call → call.IsSound capacity maxEntries worker.cancelled

/-- The records that a worker is done with are faultless, and their entries are in what it has sent
and in its buffer. -/
structure Balances (extraction : Extraction) (capacity maxEntries : Nat) (worker : Worker)
    (taken : List Record) (sent : List (List StoredEntry)) : Prop where
  entries : (worker.settled taken).filterMap extraction.entry? = sent.flatten ++ worker.load
  faultless : ∀ record ∈ worker.settled taken,
    extraction.fault? capacity maxEntries record = none
  accepted : worker.statistics.accepted =
    ((worker.settled taken).filterMap extraction.entry?).length

/-- A worker that has received some records, taken up some and sent off some lists of entries
accounts for all of them. -/
structure Accounts (extraction : Extraction) (capacity maxEntries : Nat) (worker : Worker)
    (received taken : List Record) (sent : List (List StoredEntry)) : Prop where
  sound : worker.IsSound capacity maxEntries
  left : worker.IsWell → received = taken ++ worker.left
  before : taken <+: received
  processed : worker.statistics.processed = taken.length
  awaits : ∀ path payload, worker.pending? = some (path, payload) → ∃ front record,
    taken = front ++ [record] ∧ extraction.judge record = .accepted path ∧
      extraction.payload path record = .ok payload
  balances : worker.IsWell → worker.cancelled = false →
    worker.Balances extraction capacity maxEntries taken sent
  blame : ∀ cause, worker.phase = .failed cause → cause.IsStop worker.cancelled ∨
    ∃ record ∈ taken, extraction.fault? capacity maxEntries record = some cause

variable {extraction : Extraction} {capacity maxEntries : Nat} {worker after : Worker}
  {received taken : List Record} {sent : List (List StoredEntry)}

theorem processed_counting (extraction : Extraction) (worker : Worker) (record : Record) :
    (worker.counting extraction record).statistics.processed =
      worker.statistics.processed + 1 := by
  cases verdict : extraction.judge record <;> simp only [counting, verdict] <;> rfl

theorem accepted_counting (extraction : Extraction) (worker : Worker) (record : Record) :
    (worker.counting extraction record).statistics.accepted = worker.statistics.accepted := by
  cases verdict : extraction.judge record <;> simp only [counting, verdict] <;> rfl

theorem IsSound.cancel (sound : worker.IsSound capacity maxEntries) :
    IsSound capacity maxEntries { worker with cancelled := true } :=
  ⟨sound.current, fun call here => (sound.call call here).cancel⟩

theorem IsSound.idle
    (current : ∀ buffer, worker.current = some buffer →
      ∃ entries, EntryBatch.Packs capacity maxEntries buffer.batch entries)
    (idle : worker.call? = none) : worker.IsSound capacity maxEntries := by
  refine ⟨current, fun call busy => ?_⟩
  rw [idle] at busy
  cases busy

theorem Accounts.cancel
    (accounts : worker.Accounts extraction capacity maxEntries received taken sent) :
    Accounts extraction capacity maxEntries { worker with cancelled := true } received taken
      sent where
  sound := accounts.sound.cancel
  left := accounts.left
  before := accounts.before
  processed := accounts.processed
  awaits := accounts.awaits
  balances _ clear := by cases clear
  blame cause phase := (accounts.blame cause phase).imp_left Error.IsStop.cancel

/-- A worker that has done nothing yet accounts for nothing. -/
theorem accounts_start (id : Nat) :
    Accounts extraction capacity maxEntries { id := id } [] [] [] := by
  refine ⟨⟨nofun, nofun⟩, fun _ => rfl, List.prefix_refl _, rfl, nofun, fun _ _ => ?_, nofun⟩
  exact ⟨rfl, fun _ none => absurd none List.not_mem_nil, rfl⟩

/-- A worker that only hands on what it holds accounts for all as before. -/
theorem Accounts.hands {given : List (List StoredEntry)}
    (accounts : worker.Accounts extraction capacity maxEntries received taken sent)
    (runs : worker.IsWell) (well : after.IsWell) (cancelled : after.cancelled = worker.cancelled)
    (statistics : after.statistics = worker.statistics)
    (sound : after.IsSound capacity maxEntries) (left : after.left = worker.left)
    (pending : after.pending? = worker.pending?)
    (load : worker.cancelled = false → given.flatten ++ after.load = worker.load) :
    after.Accounts extraction capacity maxEntries received taken (sent ++ given) := by
  have settled : after.settled taken = worker.settled taken := by
    rw [Worker.settled, Worker.settled, pending]
  refine ⟨sound, fun _ => ?_, accounts.before, ?_, ?_, fun _ clear => ?_, fun cause failed => ?_⟩
  · rw [left]
    exact accounts.left runs
  · rw [statistics]
    exact accounts.processed
  · rw [pending]
    exact accounts.awaits
  · have clearBefore := cancelled ▸ clear
    have balances := accounts.balances runs clearBefore
    refine ⟨?_, ?_, ?_⟩
    · rw [settled, balances.entries, ← load clearBefore, List.flatten_append, List.append_assoc]
    · rw [settled]
      exact balances.faultless
    · rw [settled, statistics]
      exact balances.accepted
  · exact absurd failed (well cause)

/-- A worker that does nothing but go on accounts for all as before. -/
theorem Accounts.quiet
    (accounts : worker.Accounts extraction capacity maxEntries received taken sent)
    (runs : worker.IsWell) (well : after.IsWell) (cancelled : after.cancelled = worker.cancelled)
    (statistics : after.statistics = worker.statistics)
    (sound : after.IsSound capacity maxEntries) (left : after.left = worker.left)
    (pending : after.pending? = worker.pending?) (load : after.load = worker.load) :
    after.Accounts extraction capacity maxEntries received taken sent := by
  have accountsAfter : after.Accounts extraction capacity maxEntries received taken (sent ++ []) :=
    accounts.hands runs well cancelled statistics sound left pending fun _ => load
  rwa [List.append_nil] at accountsAfter

/-- A worker that fails over a record, or because it is stopped, still accounts for what it has
taken up. -/
theorem Accounts.fails {cause : Error} {more : List Record} {sentAfter : List (List StoredEntry)}
    (accounts : worker.Accounts extraction capacity maxEntries received taken sent)
    (phase : after.phase = .failed cause) (cancelled : after.cancelled = worker.cancelled)
    (current : after.current = worker.current)
    (processed : after.statistics.processed = worker.statistics.processed + more.length)
    (before : taken ++ more <+: received)
    (blame : cause.IsStop worker.cancelled ∨
      ∃ record ∈ taken ++ more, extraction.fault? capacity maxEntries record = some cause) :
    after.Accounts extraction capacity maxEntries received (taken ++ more) sentAfter := by
  refine ⟨⟨?_, ?_⟩, fun well => absurd phase (well cause), before, ?_, ?_,
    fun well => absurd phase (well cause), fun other failed => ?_⟩
  · rw [current]
    exact accounts.sound.current
  · intro call busy
    rw [call?, phase] at busy
    cases busy
  · rw [processed, accounts.processed, List.length_append]
  · intro path payload waits
    rw [pending?, phase] at waits
    cases waits
  · rw [phase] at failed
    cases failed
    rw [cancelled]
    exact blame

/-! ## Taking up a record -/

theorem Accounts.left_cons {record : Record} {rest : List Record}
    (accounts : worker.Accounts extraction capacity maxEntries received taken sent)
    (phase : worker.phase = .processing (record :: rest)) :
    received = (taken ++ [record]) ++ rest := by
  have well : worker.IsWell := fun cause failed => by cases phase.symm.trans failed
  rw [accounts.left well, Worker.left, phase, List.append_assoc]
  rfl

/-- A record that becomes no entry is done with. -/
theorem Accounts.passesOver {record : Record} {rest : List Record}
    (accounts : worker.Accounts extraction capacity maxEntries received taken sent)
    (phase : worker.phase = .processing (record :: rest))
    (wellFormed : ∀ fault, extraction.judge record ≠ .malformed fault)
    (unwanted : ∀ path, extraction.judge record ≠ .accepted path) :
    ((worker.counting extraction record).goTo (.processing rest)).Accounts extraction capacity
      maxEntries received (taken ++ [record]) sent := by
  have runs : worker.IsWell := fun cause failed => by cases phase.symm.trans failed
  have all := accounts.left_cons phase
  refine ⟨⟨accounts.sound.current, nofun⟩, fun _ => all, ⟨rest, all.symm⟩, ?_, nofun,
    fun _ clear => ?_, nofun⟩
  · rw [goTo, processed_counting, accounts.processed, List.length_append, List.length_singleton]
  · have balances := accounts.balances runs clear
    have settled : worker.settled taken = taken := by simp only [Worker.settled, pending?, phase]
    have load : worker.load =
        (worker.current.map fun buffer => buffer.batch.contents).getD [] := by
      simp only [Worker.load, call?, phase]
    have same : (taken ++ [record]).filterMap extraction.entry? =
        taken.filterMap extraction.entry? := by
      rw [List.filterMap_append, List.filterMap_cons, Extraction.entry?_eq_none unwanted]
      exact List.append_nil _
    refine ⟨?_, ?_, ?_⟩
    · have entries := balances.entries
      rw [settled, load] at entries
      exact same.trans entries
    · have faultless := balances.faultless
      rw [settled] at faultless
      intro other member
      rcases List.mem_append.mp member with before | last
      · exact faultless other before
      · rw [List.mem_singleton.mp last]
        exact Extraction.fault?_eq_none wellFormed unwanted
    · have accepted := balances.accepted
      rw [settled] at accepted
      exact (accepted_counting ..).trans (accepted.trans (congrArg List.length same.symm))

/-- A record that becomes an entry is done with once the entry is in a buffer. -/
theorem Accounts.takesUp {record : Record} {rest : List Record} {path : String} {payload : Bytes}
    (accounts : worker.Accounts extraction capacity maxEntries received taken sent)
    (phase : worker.phase = .processing (record :: rest))
    (verdict : extraction.judge record = .accepted path)
    (bytes : extraction.payload path record = .ok payload) :
    ((worker.counting extraction record).goTo (.placing path payload rest)).Accounts extraction
      capacity maxEntries received (taken ++ [record]) sent := by
  have runs : worker.IsWell := fun cause failed => by cases phase.symm.trans failed
  have all := accounts.left_cons phase
  refine ⟨⟨accounts.sound.current, nofun⟩, fun _ => all, ⟨rest, all.symm⟩, ?_, ?_,
    fun _ clear => ?_, nofun⟩
  · rw [goTo, processed_counting, accounts.processed, List.length_append, List.length_singleton]
  · intro _ _ waits
    cases waits
    exact ⟨taken, record, rfl, verdict, bytes⟩
  · have balances := accounts.balances runs clear
    have settled : worker.settled taken = taken := by simp only [Worker.settled, pending?, phase]
    have load : worker.load =
        (worker.current.map fun buffer => buffer.batch.contents).getD [] := by
      simp only [Worker.load, call?, phase]
    have settledAfter : ((worker.counting extraction record).goTo
        (.placing path payload rest)).settled (taken ++ [record]) = taken :=
      List.dropLast_concat
    refine ⟨?_, ?_, ?_⟩
    · have entries := balances.entries
      rw [settled, load] at entries
      rw [settledAfter]
      exact entries
    · rw [settledAfter]
      have faultless := balances.faultless
      rwa [settled] at faultless
    · have accepted := balances.accepted
      rw [settled] at accepted
      rw [settledAfter]
      exact (accepted_counting ..).trans accepted

/-! ## Filling a buffer -/

/-- Putting the entry into the buffer is the end of its record. -/
theorem Accounts.places {path : String} {payload : Bytes} {rest : List Record} {buffer : Buffer}
    (accounts : worker.Accounts extraction capacity maxEntries received taken sent)
    (phase : worker.phase = .placing path payload rest) (current : worker.current = some buffer)
    (space : buffer.batch.hasSpace payload.length = true)
    (small : payload.length < Length.limit) :
    Accounts extraction capacity maxEntries
      { worker with
        current := some { buffer with batch := buffer.batch.push path payload }
        statistics := worker.statistics.addAccepted payload.length
        phase := .processing rest } received taken sent := by
  have runs : worker.IsWell := fun cause failed => by cases phase.symm.trans failed
  have waits : worker.pending? = some (path, payload) := by simp only [pending?, phase]
  obtain ⟨front, record, rfl, verdict, bytes⟩ := accounts.awaits path payload waits
  obtain ⟨entry, found, rfl, rfl, barless⟩ := Extraction.entry?_of_payload verdict bytes
  obtain ⟨entries, packs⟩ := accounts.sound.current buffer current
  have room : buffer.batch.size + Length.width + entry.payload.length ≤ capacity := by
    rw [EntryBatch.hasSpace, Bool.and_eq_true, decide_eq_true_iff, decide_eq_true_iff,
      packs.capacity_eq] at space
    exact space.2
  have packed := packs.push barless small room
  have one : (front ++ [record]).filterMap extraction.entry? =
      front.filterMap extraction.entry? ++ [entry] := by
    rw [List.filterMap_append, List.filterMap_cons, found]
    rfl
  refine ⟨⟨?_, fun _ busy => (by cases busy)⟩, fun _ => ?_, accounts.before, accounts.processed,
    fun _ _ waits => (by cases waits), fun _ clear => ?_, fun _ failed => (by cases failed)⟩
  · intro other here
    cases here
    exact ⟨_, packed⟩
  · rw [accounts.left runs]
    simp only [Worker.left, phase]
  · have balances := accounts.balances runs clear
    have settled : worker.settled (front ++ [record]) = front := by
      rw [Worker.settled, waits]
      exact List.dropLast_concat
    have load : worker.load = entries := by
      simp only [Worker.load, call?, phase, current, Option.map_some, Option.getD_some,
        packs.contents]
    have listed := balances.entries
    rw [settled, load] at listed
    have faultless := balances.faultless
    rw [settled] at faultless
    have accepted := balances.accepted
    rw [settled] at accepted
    refine ⟨?_, ?_, ?_⟩
    · refine one.trans ?_
      rw [listed, List.append_assoc]
      exact congrArg _ packed.contents.symm
    · intro other member
      rcases List.mem_append.mp member with before | last
      · exact faultless other before
      · rw [List.mem_singleton.mp last]
        exact Extraction.fault?_of_short verdict bytes (by omega)
    · have length := congrArg List.length one
      rw [List.length_append, List.length_singleton] at length
      exact (congrArg Nat.succ accepted).trans length.symm

/-- The payload on its way into an empty buffer without room for it is that of a faulty record. -/
theorem Accounts.oversized {path : String} {payload : Bytes} {rest : List Record} {buffer : Buffer}
    (accounts : worker.Accounts extraction capacity maxEntries received taken sent)
    (positive : 0 < maxEntries) (phase : worker.phase = .placing path payload rest)
    (current : worker.current = some buffer)
    (noSpace : buffer.batch.hasSpace payload.length = false)
    (empty : buffer.batch.isEmpty = true) :
    ∃ record ∈ taken, extraction.fault? capacity maxEntries record =
      some (Worker.oversized path payload buffer.batch) := by
  have waits : worker.pending? = some (path, payload) := by simp only [pending?, phase]
  obtain ⟨front, record, rfl, verdict, bytes⟩ := accounts.awaits path payload waits
  obtain ⟨entries, packs⟩ := accounts.sound.current buffer current
  have blank : buffer.batch = .empty capacity maxEntries := packs.eq_empty (packs.isEmpty_iff.mp empty)
  refine ⟨record, List.mem_append_right _ List.mem_cons_self, ?_⟩
  rw [blank] at noSpace ⊢
  refine Extraction.fault?_of_long verdict bytes (Nat.lt_of_not_le fun fits => ?_)
  have space : (EntryBatch.empty capacity maxEntries).hasSpace payload.length = true := by
    rw [EntryBatch.hasSpace, Bool.and_eq_true, decide_eq_true_iff, decide_eq_true_iff]
    refine ⟨positive, ?_⟩
    show 0 + Length.width + payload.length ≤ capacity
    omega
  rw [space] at noSpace
  cases noSpace

/-! ## All steps -/

theorem Accounts.receives {batch : RecordBatch}
    (accounts : worker.Accounts extraction capacity maxEntries received taken sent)
    (phase : worker.phase = .receiving .wait) :
    (worker.goTo (.processing batch.records)).Accounts extraction capacity maxEntries
      (received ++ batch.records) taken sent := by
  have runs : worker.IsWell := fun cause failed => by cases phase.symm.trans failed
  have all : received = taken := by
    rw [accounts.left runs, Worker.left, phase, List.append_nil]
  refine ⟨⟨accounts.sound.current, nofun⟩, fun _ => ?_, ?_, accounts.processed, nofun,
    fun _ clear => ?_, nofun⟩
  · rw [all]
    rfl
  · rw [all]
    exact List.prefix_append _ _
  · have balances := accounts.balances runs clear
    have settled : worker.settled taken = taken := by simp only [Worker.settled, pending?, phase]
    have load : worker.load =
        (worker.current.map fun buffer => buffer.batch.contents).getD [] := by
      simp only [Worker.load, call?, phase]
    have entries := balances.entries
    rw [settled, load] at entries
    have faultless := balances.faultless
    rw [settled] at faultless
    have accepted := balances.accepted
    rw [settled] at accepted
    exact ⟨entries, faultless, accepted⟩

/-- What an operation of a worker gives away and what it carries on is what the worker held. -/
theorem Accounts.calls {call : Pool.Call} {pool poolAfter : Pool} {progress : Pool.Progress}
    (accounts : worker.Accounts extraction capacity maxEntries received taken sent)
    (busy : worker.call? = some call)
    (kind : call.kind = .acquire ∨ call.kind = .submit ∨ call.kind = .giveBack)
    (advance : Pool.Call.Advances pool worker.cancelled call poolAfter progress)
    (pools : pool.IsSound capacity maxEntries) (goesOn : pool.ended = false) :
    ∃ given, poolAfter.filled = pool.filled ++ given ∧ poolAfter.IsSound capacity maxEntries ∧
      progress.IsSound capacity maxEntries worker.cancelled ∧
      (worker.cancelled = false → given.flatten ++ progress.carried.flatten = worker.load) := by
  have sound := accounts.sound.call call busy
  obtain ⟨given, filled, whole⟩ := advance.gives kind
  refine ⟨given, filled, advance.pool_isSound pools sound,
    advance.isSound pools sound ?_ fun _ => goesOn, fun clear => ?_⟩
  · rcases kind with kind | kind | kind <;> rw [kind] <;> exact nofun
  · simp only [Worker.load, busy]
    rw [← List.flatten_append, whole clear goesOn]

/-- Whatever a worker does, it accounts for what it has received, taken up and sent off. -/
theorem Moves.accounts {shared sharedAfter : Shared}
    (step : Moves extraction worker shared after sharedAfter) (shaped : worker.IsShaped)
    (accounts : worker.Accounts extraction capacity maxEntries received taken sent)
    (pools : shared.pool.IsSound capacity maxEntries) (goesOn : shared.pool.ended = false)
    (small : capacity < Length.limit) (positive : 0 < maxEntries) :
    ∃ got given, shared.raw.records = got ++ sharedAfter.raw.records ∧
      sharedAfter.pool.filled = shared.pool.filled ++ given ∧
      sharedAfter.pool.IsSound capacity maxEntries ∧
      after.Accounts extraction capacity maxEntries (received ++ got) (taken ++ worker.takes)
        (sent ++ given) := by
  have runs := isWell_of_outcome step.ends.1
  have well : after.outcome? = none → after.IsWell := isWell_of_outcome
  -- most steps leave the queues alone, and most take up no record
  have alone (raw : sharedAfter.raw.records = shared.raw.records)
      (pool : sharedAfter.pool = shared.pool)
      (kept : after.Accounts extraction capacity maxEntries received (taken ++ worker.takes) sent) :
      ∃ got given, shared.raw.records = got ++ sharedAfter.raw.records ∧
        sharedAfter.pool.filled = shared.pool.filled ++ given ∧
        sharedAfter.pool.IsSound capacity maxEntries ∧
        after.Accounts extraction capacity maxEntries (received ++ got) (taken ++ worker.takes)
          (sent ++ given) := by
    refine ⟨[], [], raw.symm, ?_, ?_, ?_⟩
    · rw [pool, List.append_nil]
    · rw [pool]
      exact pools
    · rwa [List.append_nil, List.append_nil]
  have idle (none : worker.takes = [])
      (kept : after.Accounts extraction capacity maxEntries received taken sent) :
      after.Accounts extraction capacity maxEntries received (taken ++ worker.takes) sent := by
    rwa [none, List.append_nil]
  have handed (none : worker.takes = []) {given : List (List StoredEntry)}
      (kept : after.Accounts extraction capacity maxEntries received taken (sent ++ given)) :
      after.Accounts extraction capacity maxEntries (received ++ []) (taken ++ worker.takes)
        (sent ++ given) := by
    rwa [none, List.append_nil, List.append_nil]
  have stops (none : worker.takes = []) {cause : Error} (phase : after.phase = .failed cause)
      (cancelled : after.cancelled = worker.cancelled) (current : after.current = worker.current)
      (statistics : after.statistics = worker.statistics)
      (blame : cause.IsStop worker.cancelled ∨
        ∃ record ∈ taken, extraction.fault? capacity maxEntries record = some cause)
      (sentAfter : List (List StoredEntry)) :
      after.Accounts extraction capacity maxEntries received (taken ++ worker.takes) sentAfter := by
    rw [none]
    refine accounts.fails phase cancelled current ?_ ?_ ?_
    · rw [statistics]
      rfl
    · rw [List.append_nil]
      exact accounts.before
    · rwa [List.append_nil]
  cases step with
  | receiveStopped phase set =>
    refine alone rfl rfl (stops ?_ rfl rfl rfl rfl (.inl ⟨set, rfl⟩) sent)
    simp only [takes, phase]
  | receiveReady phase clear =>
    refine alone rfl rfl (idle ?_ (accounts.quiet runs (well rfl) rfl rfl
      (.idle accounts.sound.current rfl) ?_ ?_ ?_)) <;>
    simp only [takes, Worker.left, pending?, load, call?, goTo, phase]
  | @received batch rest phase first =>
    refine ⟨batch.records, [], ?_, (List.append_nil _).symm, pools, ?_⟩
    · simp only [Queue.records, first, List.flatMap_cons, RawItem.records]
    · have none : worker.takes = [] := by simp only [takes, phase]
      rw [none, List.append_nil, List.append_nil]
      exact accounts.receives phase
  | receivedEnd phase first =>
    refine alone ?_ rfl (idle ?_ (accounts.quiet runs (well rfl) rfl rfl
      (.idle accounts.sound.current rfl) ?_ ?_ ?_))
    · simp only [Queue.records, first, List.flatMap_cons, RawItem.records, List.nil_append]
    all_goals simp only [takes, Worker.left, pending?, load, call?, goTo, phase]
  | batchDone phase =>
    refine alone rfl rfl (idle ?_ (accounts.quiet runs (well rfl) rfl rfl
      (.idle accounts.sound.current rfl) ?_ ?_ ?_)) <;>
    simp only [takes, Worker.left, pending?, load, call?, goTo, phase]
  | passedOver live phase wellFormed unwanted =>
    refine alone rfl rfl ?_
    simp only [takes, phase]
    exact accounts.passesOver phase wellFormed unwanted
  | malformed live phase verdict =>
    refine alone rfl rfl ?_
    simp only [takes, phase]
    have all := accounts.left_cons phase
    exact accounts.fails rfl rfl rfl (processed_counting ..) ⟨_, all.symm⟩
      (.inr ⟨_, List.mem_append_right _ List.mem_cons_self,
        Extraction.fault?_of_malformed verdict⟩)
  | unencodable live phase verdict refused =>
    refine alone rfl rfl ?_
    simp only [takes, phase]
    have all := accounts.left_cons phase
    exact accounts.fails rfl rfl rfl (processed_counting ..) ⟨_, all.symm⟩
      (.inr ⟨_, List.mem_append_right _ List.mem_cons_self,
        Extraction.fault?_of_error verdict refused⟩)
  | encoded live phase verdict bytes =>
    refine alone rfl rfl ?_
    simp only [takes, phase]
    exact accounts.takesUp phase verdict bytes
  | placeFirst phase nothing =>
    refine alone rfl rfl (idle ?_ (accounts.quiet runs (well rfl) rfl rfl
      ⟨accounts.sound.current, ?_⟩ ?_ ?_ ?_))
    · simp only [takes, phase]
    · intro call busy
      cases busy
      trivial
    · simp only [Worker.left, goTo, phase]
    · simp only [pending?, goTo, phase]
    · simp only [load, call?, goTo, phase, nothing]
      rfl
  | placed live phase current space short =>
    refine alone rfl rfl (idle ?_ (accounts.places phase current space short))
    simp only [takes, phase]
  | tooLong phase current space long =>
    obtain ⟨entries, packs⟩ := accounts.sound.current _ current
    rw [EntryBatch.hasSpace, Bool.and_eq_true, decide_eq_true_iff, decide_eq_true_iff,
      packs.capacity_eq] at space
    omega
  | oversized phase current noSpace empty =>
    refine alone rfl rfl (stops ?_ rfl rfl rfl rfl
      (.inr (accounts.oversized positive phase current noSpace empty)) sent)
    simp only [takes, phase]
  | placeFull phase current noSpace nonempty =>
    obtain ⟨entries, packs⟩ := accounts.sound.current _ current
    refine alone rfl rfl (idle ?_ (accounts.quiet runs (well rfl) rfl rfl
      ⟨fun _ here => (by cases here), ?_⟩ ?_ ?_ ?_))
    · simp only [takes, phase]
    · intro call busy
      cases busy
      refine ⟨entries, packs, fun nothing => ?_⟩
      rw [packs.isEmpty_iff.mpr nothing] at nonempty
      cases nonempty
    · simp only [Worker.left, phase]
    · simp only [pending?, phase]
    · simp only [load, call?, phase, current]
      exact List.append_nil _
  | acquiring phase kind advance =>
    obtain ⟨given, filled, poolsAfter, sound, whole⟩ :=
      accounts.calls (by simp only [call?, phase]) (.inl kind) advance pools goesOn
    refine ⟨[], given, rfl, filled, poolsAfter, handed ?_ (accounts.hands runs (well rfl) rfl rfl
      ⟨accounts.sound.current, ?_⟩ ?_ ?_ whole)⟩
    · simp only [takes, phase]
    · intro call busy
      cases busy
      exact sound
    · simp only [Worker.left, goTo, phase]
    · simp only [pending?, goTo, phase]
  | acquired phase kind advance =>
    obtain ⟨given, filled, poolsAfter, blank, whole⟩ :=
      accounts.calls (by simp only [call?, phase]) (.inl kind) advance pools goesOn
    refine ⟨[], given, rfl, filled, poolsAfter, handed ?_ (accounts.hands runs (well rfl) rfl rfl
      ⟨?_, fun _ busy => by cases busy⟩ ?_ ?_ fun clear => ?_)⟩
    · simp only [takes, phase]
    · intro buffer here
      cases here
      have empty : _ = EntryBatch.empty capacity maxEntries := blank
      exact ⟨[], empty ▸ .empty⟩
    · simp only [Worker.left, phase]
    · simp only [pending?, phase]
    · have empty : _ = EntryBatch.empty capacity maxEntries := blank
      rw [← whole clear]
      simp only [load, call?, Option.map_some, Option.getD_some, empty]
      rfl
  | acquireFailed phase kind advance =>
    obtain ⟨given, filled, poolsAfter, set, -⟩ :=
      accounts.calls (by simp only [call?, phase]) (.inl kind) advance pools goesOn
    refine ⟨[], given, rfl, filled, poolsAfter, ?_⟩
    rw [List.append_nil]
    exact stops (by simp only [takes, phase]) rfl rfl rfl rfl (.inl set) _
  | submitting phase kind advance =>
    obtain ⟨given, filled, poolsAfter, sound, whole⟩ :=
      accounts.calls (by simp only [call?, phase]) (.inr (.inl kind)) advance pools goesOn
    refine ⟨[], given, rfl, filled, poolsAfter, handed ?_ (accounts.hands runs (well rfl) rfl rfl
      ⟨accounts.sound.current, ?_⟩ ?_ ?_ whole)⟩
    · simp only [takes, phase]
    · intro call busy
      cases busy
      exact sound
    · simp only [Worker.left, goTo, phase]
    · simp only [pending?, goTo, phase]
  | submitted phase kind advance =>
    obtain ⟨given, filled, poolsAfter, -, whole⟩ :=
      accounts.calls (by simp only [call?, phase]) (.inr (.inl kind)) advance pools goesOn
    simp only [IsShaped, phase] at shaped
    refine ⟨[], given, rfl, filled, poolsAfter, handed ?_ (accounts.hands runs (well rfl) rfl rfl
      (.idle accounts.sound.current rfl) ?_ ?_ fun clear => ?_)⟩
    · simp only [takes, phase]
    · simp only [Worker.left, goTo, phase]
    · simp only [pending?, goTo, phase]
    · rw [← whole clear]
      simp only [load, call?, goTo, shaped.2]
      cases advance with
      | submitted => rfl
      | _ => cases kind
  | submitFailed phase kind advance =>
    obtain ⟨given, filled, poolsAfter, set, -⟩ :=
      accounts.calls (by simp only [call?, phase]) (.inr (.inl kind)) advance pools goesOn
    refine ⟨[], given, rfl, filled, poolsAfter, ?_⟩
    rw [List.append_nil]
    exact stops (by simp only [takes, phase]) rfl rfl rfl rfl (.inl set) _
  | forwardStopped phase set =>
    refine alone rfl rfl (stops ?_ rfl rfl rfl rfl (.inl ⟨set, rfl⟩) sent)
    simp only [takes, phase]
  | forwardReady phase clear =>
    refine alone rfl rfl (idle ?_ (accounts.quiet runs (well rfl) rfl rfl
      (.idle accounts.sound.current rfl) ?_ ?_ ?_)) <;>
    simp only [takes, Worker.left, pending?, load, call?, goTo, phase]
  | forwarded phase room =>
    refine alone ?_ rfl (idle ?_ (accounts.quiet runs (well rfl) rfl rfl
      (.idle accounts.sound.current rfl) ?_ ?_ ?_))
    · simp only [Queue.records, List.flatMap_append, List.flatMap_singleton, RawItem.records,
        List.append_nil]
    all_goals simp only [takes, Worker.left, pending?, load, call?, goTo, phase]
  | flushNothing phase nothing =>
    refine alone rfl rfl (idle ?_ (accounts.quiet runs (by rintro _ ⟨⟩) rfl rfl
      (.idle accounts.sound.current rfl) ?_ ?_ ?_)) <;>
    simp only [takes, Worker.left, pending?, load, call?, goTo, phase]
  | flushEmpty phase current empty =>
    obtain ⟨entries, packs⟩ := accounts.sound.current _ current
    refine alone rfl rfl (idle ?_ (accounts.quiet runs (well rfl) rfl rfl
      ⟨fun _ here => (by cases here), ?_⟩ ?_ ?_ ?_))
    · simp only [takes, phase]
    · intro call busy
      cases busy
      exact packs.clear
    · simp only [Worker.left, phase]
    · simp only [pending?, phase]
    · simp only [load, call?, phase, current, Option.map_some, Option.getD_some, packs.contents,
        packs.isEmpty_iff.mp empty]
      rfl
  | flushLast phase current nonempty =>
    obtain ⟨entries, packs⟩ := accounts.sound.current _ current
    refine alone rfl rfl (idle ?_ (accounts.quiet runs (well rfl) rfl rfl
      ⟨fun _ here => (by cases here), ?_⟩ ?_ ?_ ?_))
    · simp only [takes, phase]
    · intro call busy
      cases busy
      refine ⟨entries, packs, fun nothing => ?_⟩
      rw [packs.isEmpty_iff.mpr nothing] at nonempty
      cases nonempty
    · simp only [Worker.left, phase]
    · simp only [pending?, phase]
    · simp only [load, call?, phase, current]
      exact List.append_nil _
  | givingUp phase kind advance =>
    obtain ⟨given, filled, poolsAfter, sound, whole⟩ :=
      accounts.calls (by simp only [call?, phase]) (.inr kind) advance pools goesOn
    refine ⟨[], given, rfl, filled, poolsAfter, handed ?_ (accounts.hands runs (well rfl) rfl rfl
      ⟨accounts.sound.current, ?_⟩ ?_ ?_ whole)⟩
    · simp only [takes, phase]
    · intro call busy
      cases busy
      exact sound
    · simp only [Worker.left, goTo, phase]
    · simp only [pending?, goTo, phase]
  | gaveUp phase kind advance =>
    obtain ⟨given, filled, poolsAfter, -, whole⟩ :=
      accounts.calls (by simp only [call?, phase]) (.inr kind) advance pools goesOn
    simp only [IsShaped, phase] at shaped
    refine ⟨[], given, rfl, filled, poolsAfter, handed ?_ (accounts.hands runs (by rintro _ ⟨⟩) rfl rfl
      (.idle accounts.sound.current rfl) ?_ ?_ fun clear => ?_)⟩
    · simp only [takes, phase]
    · simp only [Worker.left, goTo, phase]
    · simp only [pending?, goTo, phase]
    · rw [← whole clear]
      simp only [load, call?, goTo, shaped.2]
      cases advance with
      | submitted => rfl
      | givenBack => rfl
      | _ => rcases kind with other | other <;> cases other
  | giveUpFailed phase kind advance =>
    obtain ⟨given, filled, poolsAfter, set, -⟩ :=
      accounts.calls (by simp only [call?, phase]) (.inr kind) advance pools goesOn
    refine ⟨[], given, rfl, filled, poolsAfter, ?_⟩
    rw [List.append_nil]
    exact stops (by simp only [takes, phase]) rfl rfl rfl rfl (.inl set) _

end TreeExport.Worker

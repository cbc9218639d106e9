import TreeExport.Proofs.Dump.Journals
import TreeExport.Proofs.Dump.Progress
import TreeExport.Proofs.Dump.Work

/-!
# What a worker comes to

Whatever a worker finds around it, it follows its records (`Worker.Journal.isSound_upTo`), and each
step leaves it less work.  So if it is served again and again it comes to an end, and to what its
records come to one after the other (`Worker.Journal.settles_upTo`).  There is no stream that it
cannot be served (`Worker.Journal.attended_isServed`).
-/

namespace TreeExport.Worker.Journal

variable {extraction : Extraction} {capacity maxEntries : Nat} {journal : Journal}
  {found left : Shared} {after : Worker}

/-! ## A step -/

/-- An operation of the worker goes well, and what it submits it has offered. -/
theorem IsSound.hands (sound : journal.IsSound extraction capacity maxEntries)
    (suits : found.Suits capacity maxEntries) {call : Pool.Call} {pool : Pool}
    {progress : Pool.Progress} (busy : journal.worker.call? = some call)
    (advance : Pool.Call.Advances found.pool journal.worker.cancelled call pool progress) :
    progress.IsFit capacity maxEntries ∧ ∃ given,
      pool.fulls.items = found.pool.fulls.items ++ given.map .buffer ∧
        given ++ progress.offered = journal.worker.offered := by
  rw [sound.clear] at advance
  simp only [offered, busy]
  exact advance.hands (sound.calls call busy) suits.goesOn suits.blank

/-- A worker that is about to flush has no empty buffer. -/
theorem IsSound.nonempty (sound : journal.IsSound extraction capacity maxEntries)
    (positive : 0 < maxEntries) (phase : journal.worker.phase = .flushing) {buffer : Buffer}
    (current : journal.worker.current = some buffer) : buffer.batch.isEmpty = false := by
  obtain ⟨done, between⟩ := sound.follows.exists_between (by rw [IsWell, phase]; rintro _ ⟨⟩)
    (by simp only [pending?, phase]) (by simp only [hasFlushed, phase])
  have holds := Extraction.holds_packing positive between.flawless
  rw [← between.packing, packing_of_idle (by simp only [call?, phase]), current] at holds
  obtain ⟨group, packs, some⟩ := holds.current rfl
  rw [← Bool.not_eq_true, packs.isEmpty_iff]
  exact some

/-- Whatever the worker does, it follows its records. -/
theorem IsSound.follows_note (sound : journal.IsSound extraction capacity maxEntries)
    (step : Moves extraction journal.worker found after left) (positive : 0 < maxEntries)
    (suits : found.Suits capacity maxEntries) :
    (journal.note found after left).Follows extraction capacity maxEntries := by
  have runs := isWell_of_outcome step.ends.1
  have follows := sound.follows
  have same : found.pool.fulls.items = found.pool.fulls.items ++ ([] : List Buffer).map .buffer :=
    (List.append_nil _).symm
  have stays (raw : left.raw.items = found.raw.items) :
      (journal.note found after left).records = journal.records :=
    records_note_of_append (raw.trans (List.append_nil _).symm)
  cases step with
  | receiveStopped phase set => cases sound.clear.symm.trans set
  | receiveReady phase clear =>
    refine follows.quiet runs (by rintro _ ⟨⟩) (stays rfl) same rfl rfl ?_ ?_ ?_ ?_ ?_ <;>
    simp only [roundsNext, Worker.left, pending?, hasFlushed, offered, call?, goTo, phase,
      List.append_nil]
  | received phase first =>
    obtain ⟨done, between⟩ := follows.exists_between runs (by simp only [pending?, phase])
      (by simp only [hasFlushed, phase])
    exact .between (between.receives phase first)
  | receivedEnd phase first =>
    refine follows.quiet runs (by rintro _ ⟨⟩) ?_ same rfl rfl ?_ ?_ ?_ ?_ ?_
    · exact (records_note [.endOfStream] first).trans (List.append_nil _)
    all_goals simp only [roundsNext, Worker.left, pending?, hasFlushed, offered, call?, goTo, phase,
      List.append_nil]
  | batchDone phase =>
    refine follows.quiet runs (by rintro _ ⟨⟩) (stays rfl) same rfl rfl ?_ ?_ ?_ ?_ ?_ <;>
    simp only [roundsNext, Worker.left, pending?, hasFlushed, offered, call?, goTo, phase,
      List.append_nil]
  | passedOver live phase wellFormed unwanted =>
    obtain ⟨done, between⟩ := follows.exists_between runs (by simp only [pending?, phase])
      (by simp only [hasFlushed, phase])
    exact follows_of_quiet rfl rfl (.between (between.passesOver phase wellFormed unwanted))
  | malformed live phase verdict =>
    obtain ⟨done, between⟩ := follows.exists_between runs (by simp only [pending?, phase])
      (by simp only [hasFlushed, phase])
    exact follows_of_quiet rfl rfl (.failed (between.fails phase
      (Extraction.flaw?_of_fault (Extraction.fault?_of_malformed verdict))))
  | unencodable live phase verdict refused =>
    obtain ⟨done, between⟩ := follows.exists_between runs (by simp only [pending?, phase])
      (by simp only [hasFlushed, phase])
    exact follows_of_quiet rfl rfl (.failed (between.fails phase
      (Extraction.flaw?_of_fault (Extraction.fault?_of_error verdict refused))))
  | encoded live phase verdict bytes =>
    obtain ⟨done, between⟩ := follows.exists_between runs (by simp only [pending?, phase])
      (by simp only [hasFlushed, phase])
    obtain ⟨entry, makes, rfl, rfl⟩ := Extraction.makes_of_payload verdict bytes
    exact follows_of_quiet rfl rfl (.within (between.takesUp positive phase makes))
  | placeFirst phase nothing =>
    refine follows.quiet runs (by rintro _ ⟨⟩) (stays rfl) same rfl rfl ?_ ?_ ?_ ?_ ?_ <;>
    simp only [roundsNext, Worker.left, pending?, hasFlushed, offered, call?, goTo, phase, nothing,
      Pool.Call.offered, List.append_nil]
  | placed live phase current space small =>
    obtain ⟨done, record, entry, within, rfl, rfl⟩ :=
      follows.exists_within (pending?_of_placing phase)
    exact follows_of_quiet rfl rfl (.between (within.places phase current space small))
  | tooLong phase current space long =>
    obtain ⟨done, record, entry, within, rfl, rfl⟩ :=
      follows.exists_within (pending?_of_placing phase)
    exact follows_of_quiet rfl rfl (.failed (within.tooLong phase current space long))
  | oversized phase current noSpace empty =>
    obtain ⟨done, record, entry, within, rfl, rfl⟩ :=
      follows.exists_within (pending?_of_placing phase)
    exact follows_of_quiet rfl rfl (.failed (within.oversized positive phase current noSpace empty))
  | placeFull phase current noSpace nonempty =>
    obtain ⟨done, record, entry, within, rfl, rfl⟩ :=
      follows.exists_within (pending?_of_placing phase)
    exact follows_of_quiet rfl rfl (.within (within.turnsOver phase current noSpace nonempty))
  | acquiring phase kind advance =>
    obtain ⟨-, given, fulls, offers⟩ := sound.hands suits (by simp only [call?, phase]) advance
    refine follows.quiet runs (by rintro _ ⟨⟩) (stays rfl) fulls rfl rfl ?_ ?_ ?_ ?_ offers <;>
    simp only [roundsNext, Worker.left, pending?, hasFlushed, goTo, phase]
  | acquired phase kind advance =>
    have blank := sound.calls _ (by simp only [call?, phase]; rfl)
    have shaped := sound.shaped
    simp only [IsShaped, phase] at shaped
    obtain ⟨done, record, entry, within, rfl, rfl⟩ :=
      follows.exists_within (pending?_of_acquiring phase)
    cases advance
    exact follows_of_quiet rfl rfl (.within (within.acquires positive phase shaped.2 blank))
  | acquireFailed phase kind advance =>
    obtain ⟨fit, -⟩ := sound.hands suits (by simp only [call?, phase]) advance
    exact fit.elim
  | submitting phase kind advance =>
    obtain ⟨-, given, fulls, offers⟩ := sound.hands suits (by simp only [call?, phase]) advance
    refine follows.quiet runs (by rintro _ ⟨⟩) (stays rfl) fulls rfl rfl ?_ ?_ ?_ ?_ offers <;>
    simp only [roundsNext, Worker.left, pending?, hasFlushed, goTo, phase]
  | submitted phase kind advance =>
    obtain ⟨-, given, fulls, offers⟩ := sound.hands suits (by simp only [call?, phase]) advance
    refine follows.quiet runs (by rintro _ ⟨⟩) (stays rfl) fulls rfl rfl ?_ ?_ ?_ ?_ offers <;>
    simp only [roundsNext, Worker.left, pending?, hasFlushed, goTo, phase]
  | submitFailed phase kind advance =>
    obtain ⟨fit, -⟩ := sound.hands suits (by simp only [call?, phase]) advance
    exact fit.elim
  | forwardStopped phase set => cases sound.clear.symm.trans set
  | forwardReady phase clear =>
    refine follows.quiet runs (by rintro _ ⟨⟩) (stays rfl) same rfl rfl ?_ ?_ ?_ ?_ ?_ <;>
    simp only [roundsNext, Worker.left, pending?, hasFlushed, offered, call?, goTo, phase,
      List.append_nil]
  | forwarded phase room =>
    refine follows.quiet runs (by rintro _ ⟨⟩) (records_note_of_append rfl) same rfl rfl
      ?_ ?_ ?_ ?_ ?_ <;>
    simp only [roundsNext, Worker.left, pending?, hasFlushed, offered, call?, goTo, phase,
      List.append_nil]
  | flushNothing phase nothing =>
    obtain ⟨done, between⟩ := follows.exists_between runs (by simp only [pending?, phase])
      (by simp only [hasFlushed, phase])
    exact follows_of_quiet rfl rfl (.flushed (between.flushes phase rfl nothing rfl (by
      rw [nothing]
      rfl)))
  | flushEmpty phase current empty =>
    cases empty.symm.trans (sound.nonempty positive phase current)
  | flushLast phase current nonempty =>
    obtain ⟨done, between⟩ := follows.exists_between runs (by simp only [pending?, phase])
      (by simp only [hasFlushed, phase])
    exact follows_of_quiet rfl rfl (.flushed (between.flushes phase rfl rfl rfl (by
      rw [current]
      rfl)))
  | givingUp phase kind advance =>
    obtain ⟨-, given, fulls, offers⟩ := sound.hands suits (by simp only [call?, phase]) advance
    refine follows.quiet runs (by rintro _ ⟨⟩) (stays rfl) fulls rfl rfl ?_ ?_ ?_ ?_ offers <;>
    simp only [roundsNext, Worker.left, pending?, hasFlushed, goTo, phase]
  | gaveUp phase kind advance =>
    obtain ⟨-, given, fulls, offers⟩ := sound.hands suits (by simp only [call?, phase]) advance
    refine follows.quiet runs (by rintro _ ⟨⟩) (stays rfl) fulls rfl rfl ?_ ?_ ?_ ?_ offers <;>
    simp only [roundsNext, Worker.left, pending?, hasFlushed, goTo, phase]
  | giveUpFailed phase kind advance =>
    obtain ⟨fit, -⟩ := sound.hands suits (by simp only [call?, phase]) advance
    exact fit.elim

/-- The operations of the worker stay those of one that nobody stops. -/
theorem IsSound.calls_note (sound : journal.IsSound extraction capacity maxEntries)
    (step : Moves extraction journal.worker found after left) (positive : 0 < maxEntries)
    (suits : found.Suits capacity maxEntries) :
    ∀ call, after.call? = some call → call.IsFit capacity maxEntries := by
  intro call busy
  cases step with
  | placeFirst =>
    cases busy
    trivial
  | placeFull =>
    cases busy
    trivial
  | flushEmpty phase current empty =>
    cases empty.symm.trans (sound.nonempty positive phase current)
  | flushLast =>
    cases busy
    trivial
  | acquiring phase kind advance =>
    cases busy
    exact (sound.hands suits (by simp only [call?, phase]) advance).1
  | submitting phase kind advance =>
    cases busy
    exact (sound.hands suits (by simp only [call?, phase]) advance).1
  | givingUp phase kind advance =>
    cases busy
    exact (sound.hands suits (by simp only [call?, phase]) advance).1
  | _ => cases busy

theorem IsSound.marked_note (sound : journal.IsSound extraction capacity maxEntries)
    (step : Moves extraction journal.worker found after left) (well : after.IsWell) :
    0 < after.sees ↔ .endOfStream ∈ (journal.note found after left).received := by
  have marked := sound.marked (isWell_of_outcome step.ends.1)
  rw [note, List.mem_append]
  cases step.relays with
  | quiet same _ _ sees =>
    rw [sees, marked, Queue.lost_of_same same, List.mem_nil_iff, or_false]
  | takesBatch first _ _ sees =>
    rw [sees, marked, Queue.lost_of_cons first, List.mem_singleton]
    simp only [reduceCtorEq, or_false]
  | takesMark first _ _ sees =>
    rw [sees, Queue.lost_of_cons first, List.mem_singleton]
    simp only [Nat.zero_lt_succ, or_true]
  | passesMark last _ _ sees =>
    rw [sees, marked, Queue.lost_of_append last, List.mem_nil_iff, or_false]
  | fails _ failed => exact absurd well failed

/-- Whatever it finds around it, the worker goes on as it should. -/
theorem IsSound.next (sound : journal.IsSound extraction capacity maxEntries)
    (positive : 0 < maxEntries) (suits : found.Suits capacity maxEntries) :
    (journal.next extraction found).IsSound extraction capacity maxEntries := by
  unfold Journal.next
  cases step : journal.worker.step? extraction .queue found with
  | none => exact sound
  | some outcome =>
    obtain ⟨after, left⟩ := outcome
    have moves := moves_of_step suits.isOpen sound.shaped step
    exact ⟨moves.isShaped sound.shaped, moves.ends.2.2.1.trans sound.clear,
      sound.calls_note moves positive suits, sound.marked_note moves,
      sound.follows_note moves positive suits⟩

theorem isSound_upTo {id : Nat} {found : Nat → Shared} (positive : 0 < maxEntries)
    (suits : ∀ time, (found time).Suits capacity maxEntries) (time : Nat) :
    (upTo extraction id found time).IsSound extraction capacity maxEntries := by
  induction time with
  | zero => exact isSound_start id
  | succ time ih => exact ih.next positive (suits time)

/-! ## The end -/

/-- What a worker comes to that receives records: the first that has a flaw is its failure, and if
there is none, their entries are packed and counted, and none is left behind. -/
def Settles (extraction : Extraction) (capacity maxEntries : Nat) (records : List Record)
    (journal : Journal) : Prop :=
  match records.findSome? (extraction.flaw? capacity maxEntries) with
  | some cause => journal.worker.outcome? = some (.error cause)
  | none =>
    journal.worker.outcome? = some (.ok ()) ∧
      journal.batches = pack capacity maxEntries (records.filterMap extraction.entry?) ∧
      IsPackingOf capacity maxEntries (records.filterMap extraction.entry?) journal.batches ∧
      journal.worker.current = none ∧
      journal.worker.statistics = records.foldl extraction.count {}

variable {batches : List RecordBatch}

/-- The items that batches arrive as, with the marker behind them. -/
def stream (batches : List RecordBatch) : List RawItem :=
  batches.map .batch ++ [.endOfStream]

theorem records_stream (batches : List RecordBatch) :
    (stream batches).flatMap RawItem.records = batches.flatMap RecordBatch.records := by
  rw [stream, List.flatMap_append, List.flatMap_map, List.flatMap_singleton]
  exact List.append_nil _

/-- Whoever has received the marker has received all. -/
theorem eq_stream_of_mem {received : List RawItem} (before : received <+: stream batches)
    (marked : .endOfStream ∈ received) : received = stream batches := by
  rcases List.prefix_concat_iff.mp before with all | part
  · exact all
  · obtain ⟨batch, -, other⟩ := List.mem_map.mp (part.subset marked)
    cases other

theorem Follows.exists_flushed (follows : journal.Follows extraction capacity maxEntries)
    (phase : journal.worker.phase = .finished) :
    journal.Flushed extraction capacity maxEntries := by
  cases follows with
  | between it =>
    have keeps := it.keeps
    simp only [hasFlushed, phase, reduceCtorEq] at keeps
  | within it =>
    have waits := it.waits
    simp only [pending?, phase, reduceCtorEq] at waits
  | flushed it => exact it
  | failed it => cases phase.symm.trans it.phase

theorem Follows.exists_blames {cause : Error}
    (follows : journal.Follows extraction capacity maxEntries)
    (phase : journal.worker.phase = .failed cause) :
    journal.Blames extraction capacity maxEntries cause := by
  cases follows with
  | between it => exact absurd phase (it.well cause)
  | within it =>
    have waits := it.waits
    simp only [pending?, phase, reduceCtorEq] at waits
  | flushed it =>
    have gone := it.gone
    simp only [hasFlushed, phase, Bool.false_eq_true] at gone
  | failed it =>
    cases it.phase.symm.trans phase
    exact it

/-- A worker that is over has come to what its records come to. -/
theorem IsSound.settles (sound : journal.IsSound extraction capacity maxEntries)
    (positive : 0 < maxEntries) (delivered : journal.received <+: stream batches)
    (isOver : journal.worker.outcome?.isSome) :
    journal.Settles extraction capacity maxEntries (batches.flatMap RecordBatch.records) := by
  have all := records_stream batches
  unfold Settles
  cases phase : journal.worker.phase with
  | finished =>
    have flushed := sound.follows.exists_flushed phase
    have received := eq_stream_of_mem delivered
      ((sound.marked (by rw [IsWell, phase]; rintro _ ⟨⟩)).mp (by
        simp only [sees, phase, Nat.lt_one_iff]))
    have records : journal.records = batches.flatMap RecordBatch.records := by
      rw [← all, ← received]
      rfl
    rw [← records, List.findSome?_eq_none_iff.mpr flushed.flawless]
    have packed : journal.batches =
        pack capacity maxEntries (journal.records.filterMap extraction.entry?) := by
      have full := flushed.packing
      simp only [packing, offered, call?, phase, List.append_nil] at full
      exact full
    refine ⟨by simp only [outcome?, phase], packed, ?_, flushed.empty, flushed.statistics⟩
    rw [packed]
    exact Extraction.isPackingOf_pack positive flushed.flawless
  | failed cause =>
    have blames := sound.follows.exists_blames phase
    have first : (journal.received.flatMap RawItem.records).findSome?
        (extraction.flaw? capacity maxEntries) = some cause := blames.first
    obtain ⟨more, rest⟩ := delivered
    rw [← all, ← rest, List.flatMap_append, List.findSome?_append, first]
    simp only [Option.some_or, outcome?, phase]
  | _ => simp only [outcome?, phase, Option.isSome_none, Bool.false_eq_true] at isOver

/-! ## Coming to an end -/

/-- The work that is left for a worker that is to receive batches. -/
def workLeft (batches : List RecordBatch) (journal : Journal) : Nat :=
  journal.worker.work +
    total (((stream batches).drop journal.received.length).map RawItem.work)

/-- A step takes from the work that the worker has left, and from that on what it receives. -/
theorem IsSound.work_lt (sound : journal.IsSound extraction capacity maxEntries)
    (suits : found.Suits capacity maxEntries)
    (step : Moves extraction journal.worker found after left) :
    after.work < journal.worker.work +
      total ((found.raw.lost left.raw).map RawItem.work) := by
  have blank : ∀ buffer ∈ found.pool.empties.items, buffer.load = 0 := by
    intro buffer member
    have empty : buffer.batch = .empty capacity maxEntries := suits.blank buffer member
    rw [Buffer.load, empty]
    rfl
  have less : after.work + left.raw.work + 0 < journal.worker.work + found.raw.work + 0 := by
    refine step.work_lt_of sound.shaped (fun _ => rfl) fun call progress busy advance => ?_
    have fit := sound.calls call busy
    have kind : call.kind = .acquire ∨ call.kind = .submit ∨ call.kind = .giveBack := by
      cases call <;> first | exact .inl rfl | exact .inr (.inl rfl) | exact fit.elim
    simpa only [Nat.zero_add] using advance.work_lt_alone kind blank
  cases step.relays with
  | quiet same | fails same =>
    simp only [Queue.work, same] at less
    omega
  | takesBatch first | takesMark first =>
    rw [Queue.lost_of_cons first]
    simp only [Queue.work, first, List.map_cons, List.map_nil, total_cons, total_nil] at less ⊢
    omega
  | passesMark last =>
    simp only [Queue.work, last, List.map_append, total_append] at less
    omega

/-- Waiting changes nothing, and a step leaves less work. -/
theorem IsSound.workLeft_next (sound : journal.IsSound extraction capacity maxEntries)
    (suits : found.Suits capacity maxEntries)
    (delivered : (journal.next extraction found).received <+: stream batches) :
    journal.next extraction found = journal ∧
        journal.worker.step? extraction .queue found = none ∨
      (journal.next extraction found).workLeft batches < journal.workLeft batches := by
  unfold Journal.next at delivered ⊢
  cases step : journal.worker.step? extraction .queue found with
  | none => exact .inl ⟨rfl, rfl⟩
  | some outcome =>
    obtain ⟨after, left⟩ := outcome
    simp only [step] at delivered ⊢
    have less := sound.work_lt suits (moves_of_step suits.isOpen sound.shaped step)
    obtain ⟨rest, whole⟩ := delivered
    refine .inr ?_
    have before : (stream batches).drop journal.received.length =
        found.raw.lost left.raw ++ rest := by
      rw [← whole, note, List.append_assoc, List.drop_left]
    have afterwards : (stream batches).drop (journal.note found after left).received.length =
        rest := by
      rw [← whole, List.drop_left]
    simp only [workLeft, before, afterwards, List.map_append, total_append]
    change after.work + _ < _
    omega

section Run

variable {id : Nat} {around : Nat → Shared}

theorem workLeft_upTo_le (positive : 0 < maxEntries)
    (suits : ∀ time, (around time).Suits capacity maxEntries)
    (delivered : ∀ time, (upTo extraction id around time).received <+: stream batches)
    {time later : Nat} (order : time ≤ later) :
    (upTo extraction id around later).workLeft batches ≤
      (upTo extraction id around time).workLeft batches := by
  induction order with
  | refl => exact Nat.le_refl _
  | @step later _ ih =>
    have sound : (upTo extraction id around later).IsSound extraction capacity maxEntries :=
      isSound_upTo positive suits later
    rcases sound.workLeft_next (suits later) (delivered (later + 1)) with ⟨same, -⟩ | less
    · rw [upTo, same]
      exact ih
    · exact Nat.le_of_lt (Nat.lt_of_lt_of_le less ih)

/-- Whenever the worker is served that is not over yet, there is less work left for it. -/
theorem workLeft_upTo_lt (positive : 0 < maxEntries)
    (suits : ∀ time, (around time).Suits capacity maxEntries)
    (delivered : ∀ time, (upTo extraction id around time).received <+: stream batches) {time : Nat}
    (runs : (upTo extraction id around time).worker.outcome? = none)
    (served : (upTo extraction id around time).worker.IsServed (around time)) :
    (upTo extraction id around (time + 1)).workLeft batches <
      (upTo extraction id around time).workLeft batches := by
  have sound : (upTo extraction id around time).IsSound extraction capacity maxEntries :=
    isSound_upTo positive suits time
  rcases sound.workLeft_next (suits time) (delivered (time + 1)) with ⟨-, stuck⟩ | less
  · have possible : (step? extraction .queue (upTo extraction id around time).worker
        (around time)).isSome :=
      step?_isSome runs (suits time).isOpen sound.shaped served.receives served.forwards
        served.acquires served.room
    rw [stuck] at possible
    cases possible
  · exact less

/-- A worker that is served again and again is over some time. -/
theorem exists_over (positive : 0 < maxEntries)
    (suits : ∀ time, (around time).Suits capacity maxEntries)
    (delivered : ∀ time, (upTo extraction id around time).received <+: stream batches)
    (served : ∀ time, ∃ later ≥ time,
      (upTo extraction id around later).worker.IsServed (around later)) :
    ∃ time, (upTo extraction id around time).worker.outcome?.isSome := by
  -- the induction is on the work that is left at some time
  have fromThen (work : Nat) : ∀ time, (upTo extraction id around time).workLeft batches = work →
      ∃ time, (upTo extraction id around time).worker.outcome?.isSome := by
    induction work using Nat.strongRecOn with
    | ind work ih =>
      intro time left
      obtain ⟨later, order, service⟩ := served time
      have notMore := workLeft_upTo_le positive suits delivered order
      cases runs : (upTo extraction id around later).worker.outcome? with
      | some outcome => exact ⟨later, by rw [runs]; rfl⟩
      | none =>
        have less := workLeft_upTo_lt positive suits delivered runs service
        exact ih _ (by omega) (later + 1) rfl
  exact fromThen _ 0 rfl

theorem step?_of_over {worker : Worker} (isOver : worker.outcome?.isSome) (side : Side)
    (shared : Shared) : worker.step? extraction side shared = none := by
  unfold outcome? at isOver
  split at isOver
  · simp only [step?, ‹worker.phase = _›]
  · simp only [step?, ‹worker.phase = _›]
  · cases isOver

/-- A worker that is over stays as it is. -/
theorem upTo_of_over {time later : Nat} (order : time ≤ later)
    (isOver : (upTo extraction id around time).worker.outcome?.isSome) :
    upTo extraction id around later = upTo extraction id around time := by
  induction order with
  | refl => rfl
  | @step later _ ih =>
    have still : (upTo extraction id around later).worker.outcome?.isSome := by rwa [ih]
    rw [upTo, next, step?_of_over still]
    exact ih

theorem IsSound.rounds_le (sound : journal.IsSound extraction capacity maxEntries) :
    journal.rounds ≤ 2 := by
  cases sound.follows with
  | between it => exact it.rounds
  | within it => exact Nat.le_succ_of_le it.rounds
  | flushed it => exact it.rounds
  | failed it => exact it.rounds

/-- A worker that receives the batches of a stream, while whatever happens around it, and that is
served again and again, comes to what the records of the batches come to one after the other, however
they are divided into batches.  It looks for a place for an entry twice at most. -/
theorem settles_upTo (positive : 0 < maxEntries)
    (suits : ∀ time, (around time).Suits capacity maxEntries)
    (delivered : ∀ time, (upTo extraction id around time).received <+: stream batches)
    (served : ∀ time, ∃ later ≥ time,
      (upTo extraction id around later).worker.IsServed (around later)) :
    (∀ time, (upTo extraction id around time).rounds ≤ 2) ∧
      ∃ time, ∀ later ≥ time, (upTo extraction id around later).Settles extraction capacity
        maxEntries (batches.flatMap RecordBatch.records) := by
  have sound (time : Nat) :
      (upTo extraction id around time).IsSound extraction capacity maxEntries :=
    isSound_upTo positive suits time
  obtain ⟨time, isOver⟩ := exists_over positive suits delivered served
  refine ⟨fun time => (sound time).rounds_le, time, fun later order => ?_⟩
  rw [upTo_of_over order isOver]
  exact (sound time).settles positive (delivered time) isOver

end Run

/-! ## A worker that never waits -/

/-- What a worker finds around it that is served at once: the rest of its stream, and an empty buffer
in a pool with room for one more. -/
def offer (capacity maxEntries : Nat) (batches : List RecordBatch) (journal : Journal) : Shared where
  raw :=
    { capacity := batches.length + 2
      items := (stream batches).drop journal.received.length }
  pool :=
    { size := 2
      empties := { capacity := 2, items := [⟨none, .empty capacity maxEntries⟩] }
      fulls := { capacity := 1 }
      counts := { empty := 1, held := 1 } }

/-- The journal of a worker that is served at once. -/
def attended (extraction : Extraction) (capacity maxEntries : Nat) (batches : List RecordBatch)
    (id : Nat) : Nat → Journal
  | 0 => { worker := { id := id } }
  | time + 1 =>
    let journal := attended extraction capacity maxEntries batches id time
    journal.next extraction (journal.offer capacity maxEntries batches)

/-- What a worker finds around it at each time that is served at once. -/
def attending (extraction : Extraction) (capacity maxEntries : Nat) (batches : List RecordBatch)
    (id : Nat) (time : Nat) : Shared :=
  (attended extraction capacity maxEntries batches id time).offer capacity maxEntries batches

theorem upTo_attending (id time : Nat) :
    upTo extraction id (attending extraction capacity maxEntries batches id) time =
      attended extraction capacity maxEntries batches id time := by
  induction time with
  | zero => rfl
  | succ time ih =>
    rw [upTo, ih]
    rfl

theorem suits_offer : (journal.offer capacity maxEntries batches).Suits capacity maxEntries where
  isOpen := ⟨Nat.one_ne_zero, Nat.one_ne_zero, Nat.one_ne_zero, Nat.one_ne_zero, Nat.one_ne_zero,
    Nat.one_ne_zero⟩
  goesOn := rfl
  blank buffer member := by
    rw [List.mem_singleton.mp member]
    rfl

theorem append_items_offer (delivered : journal.received <+: stream batches) :
    journal.received ++ (journal.offer capacity maxEntries batches).raw.items = stream batches :=
  List.prefix_iff_eq_append.mp delivered

/-- What is received comes from the stream. -/
theorem received_next (sound : journal.IsSound extraction capacity maxEntries)
    (delivered : journal.received <+: stream batches) :
    (journal.next extraction (journal.offer capacity maxEntries batches)).received <+:
      stream batches := by
  have whole : journal.received ++ (journal.offer capacity maxEntries batches).raw.items =
      stream batches := append_items_offer delivered
  unfold next
  cases step : journal.worker.step? extraction .queue
      (journal.offer capacity maxEntries batches) with
  | none => exact delivered
  | some outcome =>
    obtain ⟨after, left⟩ := outcome
    have moves := moves_of_step suits_offer.isOpen sound.shaped step
    simp only [note]
    cases moves.relays with
    | quiet same | fails same =>
      rw [Queue.lost_of_same same, List.append_nil]
      exact delivered
    | takesBatch first | takesMark first =>
      rw [first, ← List.singleton_append, ← List.append_assoc] at whole
      rw [Queue.lost_of_cons first]
      exact ⟨_, whole⟩
    | passesMark last =>
      rw [Queue.lost_of_append last, List.append_nil]
      exact delivered

theorem isServed_offer (sound : journal.IsSound extraction capacity maxEntries)
    (delivered : journal.received <+: stream batches) :
    journal.worker.IsServed (journal.offer capacity maxEntries batches) where
  receives phase nothing := by
    have all : journal.received ++ (journal.offer capacity maxEntries batches).raw.items =
        stream batches := append_items_offer delivered
    rw [nothing, List.append_nil] at all
    have marked : 0 < journal.worker.sees := by
      refine (sound.marked (by rw [IsWell, phase]; rintro _ ⟨⟩)).mpr ?_
      rw [all, stream]
      exact List.mem_append_right _ List.mem_cons_self
    simp only [sees, phase, Nat.lt_irrefl] at marked
  forwards _ := by
    simp only [offer, stream, List.length_drop, List.length_append, List.length_map,
      List.length_singleton]
    omega
  acquires _ _ _ _ := List.cons_ne_nil _ _
  room _ := ⟨Nat.one_lt_two, Nat.one_pos⟩

/-- A worker can be served whatever its stream is. -/
theorem attended_isServed (extraction : Extraction) (positive : 0 < maxEntries)
    (batches : List RecordBatch) (id : Nat) :
    let around := attending extraction capacity maxEntries batches id
    (∀ time, (around time).Suits capacity maxEntries) ∧
      (∀ time, (upTo extraction id around time).received <+: stream batches) ∧
      ∀ time, ∃ later ≥ time, (upTo extraction id around later).worker.IsServed (around later) := by
  intro around
  have suits : ∀ time, (around time).Suits capacity maxEntries := fun _ => suits_offer
  have sound (time : Nat) :
      (attended extraction capacity maxEntries batches id time).IsSound extraction capacity
        maxEntries := by
    rw [← upTo_attending]
    exact isSound_upTo positive suits time
  have delivered (time : Nat) :
      (attended extraction capacity maxEntries batches id time).received <+: stream batches := by
    induction time with
    | zero => exact List.nil_prefix
    | succ time ih => exact received_next (sound time) ih
  refine ⟨suits, fun time => ?_, fun time => ⟨time, Nat.le_refl _, ?_⟩⟩
  · rw [upTo_attending]
    exact delivered time
  · rw [upTo_attending]
    exact isServed_offer (sound time) (delivered time)

/-- Three nodes and a hidden one, in two batches. -/
def someBatches : List RecordBatch :=
  [.ofRecords [.node "/a" []], .ofRecords [.node "/b" [], .node "/:c" [], .node "/d" []]]

/-- In buffers with room for two of their entries the three are packed into two batches. -/
theorem some_settle :
    let extraction : Extraction := { wants := fun _ => true, blobs := .passthrough }
    let around := attending extraction 20 4 someBatches 0
    (∀ time, (around time).Suits 20 4) ∧
      (∀ time, (upTo extraction 0 around time).received <+: stream someBatches) ∧
      (∀ time, ∃ later ≥ time, (upTo extraction 0 around later).worker.IsServed (around later)) ∧
      ∃ time, (upTo extraction 0 around time).worker.outcome? = some (.ok ()) ∧
        (upTo extraction 0 around time).batches.map (fun batch => batch.keys.map SortKey.path) =
          [["/a", "/b"], ["/d"]] := by
  intro extraction around
  obtain ⟨suits, delivered, served⟩ :=
    attended_isServed extraction (by decide : 0 < 4) someBatches 0
  refine ⟨suits, delivered, served, ?_⟩
  obtain ⟨-, time, settles⟩ := settles_upTo (by decide) suits delivered served
  have flawless : ((someBatches.flatMap RecordBatch.records).findSome?
      (extraction.flaw? 20 4)).isNone := by decide +kernel
  have settled := settles time (Nat.le_refl _)
  rw [Settles, Option.isNone_iff_eq_none.mp flawless] at settled
  obtain ⟨ended, packed, -⟩ := settled
  refine ⟨time, ended, ?_⟩
  rw [packed]
  decide +kernel

end TreeExport.Worker.Journal

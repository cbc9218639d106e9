import TreeExport.Dump.Step
import TreeExport.Proofs.Files.Tasks
import TreeExport.Proofs.Pool.Calls

/-!
# What a step of a stage can do

Each of the relations `Download.Moves`, `Worker.Moves` and `Storer.Moves` has one rule for each
thing that the stage can do, with all that has to hold for it.  The steps of the stages are read
through them once (`moves_of_step`), and every invariant is proved by going through their rules.
-/

namespace TreeExport

/-! ## The download -/

namespace Download

variable {σ : Type} [RecordSource σ]

/-- What a step of the download can do. -/
inductive Moves (request : BatchRequest) (download : Download σ) (raw : Queue RawItem) :
    Download σ → Queue RawItem → Prop
  | checkStopped (phase : download.phase = .checking) (set : download.cancelled = true) :
      Moves request download raw (download.fail .cancelled) raw
  | checked (phase : download.phase = .checking) (clear : download.cancelled = false) :
      Moves request download raw { download with phase := .asking } raw
  | sourceFailed {cause : Error} {source : σ} (phase : download.phase = .asking)
      (answer : RecordSource.next request download.source = (.error cause, source)) :
      Moves request download raw ({ download with source := source }.fail cause) raw
  | sourceEnded {source : σ} (phase : download.phase = .asking)
      (answer : RecordSource.next request download.source = (.ok none, source)) :
      Moves request download raw { download with source := source, phase := .ending .check } raw
  | gotEmpty {batch : RecordBatch} {source : σ} (phase : download.phase = .asking)
      (answer : RecordSource.next request download.source = (.ok (some batch), source))
      (empty : batch.records = []) :
      Moves request download raw { download with source := source, phase := .checking } raw
  | got {batch : RecordBatch} {source : σ} (phase : download.phase = .asking)
      (answer : RecordSource.next request download.source = (.ok (some batch), source))
      (full : batch.records ≠ []) :
      Moves request download raw
        { download with
          source := source
          documents := download.documents + batch.records.length
          batches := download.batches + 1
          phase := .sending batch .check } raw
  | sendStopped {batch : RecordBatch} {attempt : Attempt}
      (phase : download.phase = .sending batch attempt) (set : download.cancelled = true) :
      Moves request download raw (download.fail .cancelled) raw
  | sendReady {batch : RecordBatch} (phase : download.phase = .sending batch .check)
      (clear : download.cancelled = false) :
      Moves request download raw { download with phase := .sending batch .wait } raw
  | sent {batch : RecordBatch} (phase : download.phase = .sending batch .wait)
      (room : raw.items.length < raw.capacity) :
      Moves request download raw { download with phase := .checking }
        { raw with items := raw.items ++ [.batch batch] }
  | endStopped {attempt : Attempt} (phase : download.phase = .ending attempt)
      (set : download.cancelled = true) :
      Moves request download raw (download.fail .cancelled) raw
  | endReady (phase : download.phase = .ending .check) (clear : download.cancelled = false) :
      Moves request download raw { download with phase := .ending .wait } raw
  | ended (phase : download.phase = .ending .wait) (room : raw.items.length < raw.capacity) :
      Moves request download raw { download with phase := .finished }
        { raw with items := raw.items ++ [.endOfStream] }

theorem moves_of_step {request : BatchRequest} {side : Side} {download after : Download σ}
    {raw rawAfter : Queue RawItem} (heard : raw.receivers ≠ 0)
    (step : download.step? request side raw = some (after, rawAfter)) :
    Moves request download raw after rawAfter := by
  unfold step? at step
  cases phase : download.phase with
  | checking =>
    simp only [phase] at step
    cases token : download.cancelled with
    | false =>
      simp only [token, Bool.false_eq_true, if_false] at step
      cases step
      exact token ▸ .checked phase token
    | true =>
      simp only [token, if_true] at step
      cases step
      exact .checkStopped phase token
  | asking =>
    simp only [phase] at step
    rcases asked : RecordSource.next request download.source with ⟨answer, source⟩
    rw [asked] at step
    cases answer with
    | error cause =>
      cases step
      exact .sourceFailed phase asked
    | ok answer =>
      cases answer with
      | none =>
        cases step
        exact .sourceEnded phase asked
      | some batch =>
        cases records : batch.records with
        | nil =>
          simp only [takeAnswer, RecordBatch.isEmpty, records, List.isEmpty_nil, if_true] at step
          cases step
          exact .gotEmpty phase asked records
        | cons record rest =>
          have full : batch.records ≠ [] := by
            rw [records]
            exact List.cons_ne_nil _ _
          simp only [takeAnswer, RecordBatch.isEmpty, records, List.isEmpty_cons,
            Bool.false_eq_true, if_false] at step
          cases step
          exact .got phase asked full
  | sending batch attempt =>
    simp only [phase] at step
    obtain ⟨⟨queue, progress⟩, sending, same⟩ := Option.map_eq_some_iff.mp step
    cases Queue.sends_of_send sending with
    | stopped set =>
      cases same
      exact .sendStopped phase set
    | ready clear =>
      cases same
      exact .sendReady phase clear
    | sent room =>
      cases same
      exact .sent phase room
    | gone nobody => exact absurd nobody heard
  | ending attempt =>
    simp only [phase] at step
    obtain ⟨⟨queue, progress⟩, sending, same⟩ := Option.map_eq_some_iff.mp step
    cases Queue.sends_of_send sending with
    | stopped set =>
      cases same
      exact .endStopped phase set
    | ready clear =>
      cases same
      exact .endReady phase clear
    | sent room =>
      cases same
      exact .ended phase room
    | gone nobody => exact absurd nobody heard
  | finished =>
    simp only [phase] at step
    cases step
  | failed cause =>
    simp only [phase] at step
    cases step

/-- A download that moves is not over, and nobody takes or leaves an end of the queue. -/
theorem Moves.ends {request : BatchRequest} {download after : Download σ}
    {raw rawAfter : Queue RawItem} (step : Moves request download raw after rawAfter) :
    download.outcome? = none ∧ after.cancelled = download.cancelled ∧
      rawAfter.senders = raw.senders ∧ rawAfter.receivers = raw.receivers ∧
      rawAfter.capacity = raw.capacity := by
  cases step <;> refine ⟨?_, rfl, rfl, rfl, rfl⟩ <;> simp only [outcome?, ‹download.phase = _›]

theorem Moves.phase_ne_finished {request : BatchRequest} {download after : Download σ}
    {raw rawAfter : Queue RawItem} (step : Moves request download raw after rawAfter) :
    download.phase ≠ .finished := by
  intro isOver
  have runs := step.ends.1
  simp only [outcome?, isOver] at runs
  cases runs

omit [RecordSource σ] in
theorem phase_eq_finished {download : Download σ} (outcome : download.outcome? = some (.ok ())) :
    download.phase = .finished := by
  unfold outcome? at outcome
  split at outcome
  · assumption
  · cases outcome
  · cases outcome

end Download

/-! ## Workers -/

/-- The queues of a dump have somebody at the ends that a worker does not hold. -/
structure Shared.IsOpen (shared : Shared) : Prop where
  heard : shared.raw.receivers ≠ 0
  fed : shared.raw.senders ≠ 0
  pool : shared.pool.IsOpen

namespace Worker

/-- The operation on the pool that a worker is at. -/
def call? (worker : Worker) : Option Pool.Call :=
  match worker.phase with
  | .acquiring call _ _ _ => some call
  | .submitting call _ _ _ => some call
  | .givingUp call => some call
  | _ => none

/-- The operation that a worker is at is one that belongs there, and during it and after it the
worker fills no buffer. -/
def IsShaped (worker : Worker) : Prop :=
  match worker.phase with
  | .acquiring call _ _ _ => call.kind = .acquire ∧ worker.current = none
  | .submitting call _ _ _ => call.kind = .submit ∧ worker.current = none
  | .givingUp call => (call.kind = .submit ∨ call.kind = .giveBack) ∧ worker.current = none
  | .finished => worker.current = none
  | _ => True

/-- The worker with a record counted. -/
def counting (extraction : Extraction) (worker : Worker) (record : Record) : Worker :=
  { worker with
    statistics :=
      { worker.statistics with processed := worker.statistics.processed + 1 }.addVerdict
        (extraction.judge record) }

/-- What a step of a worker can do. -/
inductive Moves (extraction : Extraction) (worker : Worker) (shared : Shared) :
    Worker → Shared → Prop
  | receiveStopped {attempt : Attempt} (phase : worker.phase = .receiving attempt)
      (set : worker.cancelled = true) :
      Moves extraction worker shared (worker.goTo (.failed .cancelled)) shared
  | receiveReady (phase : worker.phase = .receiving .check) (clear : worker.cancelled = false) :
      Moves extraction worker shared (worker.goTo (.receiving .wait)) shared
  | received {batch : RecordBatch} {rest : List RawItem}
      (phase : worker.phase = .receiving .wait)
      (first : shared.raw.items = .batch batch :: rest) :
      Moves extraction worker shared (worker.goTo (.processing batch.records))
        { shared with raw := { shared.raw with items := rest } }
  | receivedEnd {rest : List RawItem} (phase : worker.phase = .receiving .wait)
      (first : shared.raw.items = .endOfStream :: rest) :
      Moves extraction worker shared (worker.goTo (.forwarding .check))
        { shared with raw := { shared.raw with items := rest } }
  | batchDone (phase : worker.phase = .processing []) :
      Moves extraction worker shared (worker.goTo (.receiving .check)) shared
  | passedOver {record : Record} {rest : List Record} (live : LiveCounters)
      (phase : worker.phase = .processing (record :: rest))
      (wellFormed : ∀ fault, extraction.judge record ≠ .malformed fault)
      (unwanted : ∀ path, extraction.judge record ≠ .accepted path) :
      Moves extraction worker shared
        ((worker.counting extraction record).goTo (.processing rest))
        { shared with live := live }
  | malformed {record : Record} {rest : List Record} {fault : Record.IdFault}
      (live : LiveCounters) (phase : worker.phase = .processing (record :: rest))
      (verdict : extraction.judge record = .malformed fault) :
      Moves extraction worker shared
        ((worker.counting extraction record).goTo (.failed fault.toError))
        { shared with live := live }
  | unencodable {record : Record} {rest : List Record} {path : String} {cause : Error}
      (live : LiveCounters) (phase : worker.phase = .processing (record :: rest))
      (verdict : extraction.judge record = .accepted path)
      (refused : extraction.payload path record = .error cause) :
      Moves extraction worker shared
        ((worker.counting extraction record).goTo (.failed cause)) { shared with live := live }
  | encoded {record : Record} {rest : List Record} {path : String} {payload : Bytes}
      (live : LiveCounters) (phase : worker.phase = .processing (record :: rest))
      (verdict : extraction.judge record = .accepted path)
      (bytes : extraction.payload path record = .ok payload) :
      Moves extraction worker shared
        ((worker.counting extraction record).goTo (.placing path payload rest))
        { shared with live := live }
  | placeFirst {path : String} {payload : Bytes} {rest : List Record}
      (phase : worker.phase = .placing path payload rest) (nothing : worker.current = none) :
      Moves extraction worker shared
        (worker.goTo (.acquiring (.takeEmpty .check) path payload rest)) shared
  | placed {path : String} {payload : Bytes} {rest : List Record} {buffer : Buffer}
      (live : LiveCounters) (phase : worker.phase = .placing path payload rest)
      (current : worker.current = some buffer) (space : buffer.batch.hasSpace payload.length = true)
      (small : payload.length < Length.limit) :
      Moves extraction worker shared
        { worker with
          current := some { buffer with batch := buffer.batch.push path payload }
          statistics := worker.statistics.addAccepted payload.length
          phase := .processing rest } { shared with live := live }
  | tooLong {path : String} {payload : Bytes} {rest : List Record} {buffer : Buffer}
      (phase : worker.phase = .placing path payload rest)
      (current : worker.current = some buffer) (space : buffer.batch.hasSpace payload.length = true)
      (long : Length.limit ≤ payload.length) :
      Moves extraction worker shared
        (worker.goTo (.failed (EntryBatch.Fault.toError (.tooLong path)))) shared
  | oversized {path : String} {payload : Bytes} {rest : List Record} {buffer : Buffer}
      (phase : worker.phase = .placing path payload rest)
      (current : worker.current = some buffer)
      (noSpace : buffer.batch.hasSpace payload.length = false)
      (empty : buffer.batch.isEmpty = true) :
      Moves extraction worker shared
        (worker.goTo (.failed (Worker.oversized path payload buffer.batch))) shared
  | placeFull {path : String} {payload : Bytes} {rest : List Record} {buffer : Buffer}
      (phase : worker.phase = .placing path payload rest)
      (current : worker.current = some buffer)
      (noSpace : buffer.batch.hasSpace payload.length = false)
      (nonempty : buffer.batch.isEmpty = false) :
      Moves extraction worker shared
        { worker with current := none, phase := .submitting (.submit buffer) path payload rest }
        shared
  | acquiring {path : String} {payload : Bytes} {rest : List Record} {call next : Pool.Call}
      {pool : Pool} (phase : worker.phase = .acquiring call path payload rest)
      (kind : call.kind = .acquire)
      (step : Pool.Call.Advances shared.pool worker.cancelled call pool (.going next)) :
      Moves extraction worker shared (worker.goTo (.acquiring next path payload rest))
        { shared with pool := pool }
  | acquired {path : String} {payload : Bytes} {rest : List Record} {call : Pool.Call}
      {pool : Pool} {buffer : Buffer} (phase : worker.phase = .acquiring call path payload rest)
      (kind : call.kind = .acquire)
      (step : Pool.Call.Advances shared.pool worker.cancelled call pool
        (.answered (.ok (.buffer buffer)))) :
      Moves extraction worker shared
        { worker with current := some buffer, phase := .placing path payload rest }
        { shared with pool := pool }
  | acquireFailed {path : String} {payload : Bytes} {rest : List Record} {call : Pool.Call}
      {pool : Pool} {cause : Error} (phase : worker.phase = .acquiring call path payload rest)
      (kind : call.kind = .acquire)
      (step : Pool.Call.Advances shared.pool worker.cancelled call pool
        (.answered (.error cause))) :
      Moves extraction worker shared (worker.goTo (.failed cause)) { shared with pool := pool }
  | submitting {path : String} {payload : Bytes} {rest : List Record} {call next : Pool.Call}
      {pool : Pool} (phase : worker.phase = .submitting call path payload rest)
      (kind : call.kind = .submit)
      (step : Pool.Call.Advances shared.pool worker.cancelled call pool (.going next)) :
      Moves extraction worker shared (worker.goTo (.submitting next path payload rest))
        { shared with pool := pool }
  | submitted {path : String} {payload : Bytes} {rest : List Record} {call : Pool.Call}
      {pool : Pool} {answer : Pool.Answer}
      (phase : worker.phase = .submitting call path payload rest) (kind : call.kind = .submit)
      (step : Pool.Call.Advances shared.pool worker.cancelled call pool
        (.answered (.ok answer))) :
      Moves extraction worker shared (worker.goTo (.placing path payload rest))
        { shared with pool := pool }
  | submitFailed {path : String} {payload : Bytes} {rest : List Record} {call : Pool.Call}
      {pool : Pool} {cause : Error} (phase : worker.phase = .submitting call path payload rest)
      (kind : call.kind = .submit)
      (step : Pool.Call.Advances shared.pool worker.cancelled call pool
        (.answered (.error cause))) :
      Moves extraction worker shared (worker.goTo (.failed cause)) { shared with pool := pool }
  | forwardStopped {attempt : Attempt} (phase : worker.phase = .forwarding attempt)
      (set : worker.cancelled = true) :
      Moves extraction worker shared (worker.goTo (.failed .cancelled)) shared
  | forwardReady (phase : worker.phase = .forwarding .check) (clear : worker.cancelled = false) :
      Moves extraction worker shared (worker.goTo (.forwarding .wait)) shared
  | forwarded (phase : worker.phase = .forwarding .wait)
      (room : shared.raw.items.length < shared.raw.capacity) :
      Moves extraction worker shared (worker.goTo .flushing)
        { shared with raw := { shared.raw with items := shared.raw.items ++ [.endOfStream] } }
  | flushNothing (phase : worker.phase = .flushing) (nothing : worker.current = none) :
      Moves extraction worker shared (worker.goTo .finished) shared
  | flushEmpty {buffer : Buffer} (phase : worker.phase = .flushing)
      (current : worker.current = some buffer) (empty : buffer.batch.isEmpty = true) :
      Moves extraction worker shared
        { worker with current := none, phase := .givingUp (.giveBack buffer) } shared
  | flushLast {buffer : Buffer} (phase : worker.phase = .flushing)
      (current : worker.current = some buffer) (nonempty : buffer.batch.isEmpty = false) :
      Moves extraction worker shared
        { worker with current := none, phase := .givingUp (.submit buffer) } shared
  | givingUp {call next : Pool.Call} {pool : Pool} (phase : worker.phase = .givingUp call)
      (kind : call.kind = .submit ∨ call.kind = .giveBack)
      (step : Pool.Call.Advances shared.pool worker.cancelled call pool (.going next)) :
      Moves extraction worker shared (worker.goTo (.givingUp next)) { shared with pool := pool }
  | gaveUp {call : Pool.Call} {pool : Pool} {answer : Pool.Answer}
      (phase : worker.phase = .givingUp call)
      (kind : call.kind = .submit ∨ call.kind = .giveBack)
      (step : Pool.Call.Advances shared.pool worker.cancelled call pool
        (.answered (.ok answer))) :
      Moves extraction worker shared (worker.goTo .finished) { shared with pool := pool }
  | giveUpFailed {call : Pool.Call} {pool : Pool} {cause : Error}
      (phase : worker.phase = .givingUp call)
      (kind : call.kind = .submit ∨ call.kind = .giveBack)
      (step : Pool.Call.Advances shared.pool worker.cancelled call pool
        (.answered (.error cause))) :
      Moves extraction worker shared (worker.goTo (.failed cause)) { shared with pool := pool }

variable {extraction : Extraction} {side : Side} {worker after : Worker}
  {shared sharedAfter : Shared}

theorem moves_of_takeUp {record : Record} {rest : List Record} {live : LiveCounters}
    (phase : worker.phase = .processing (record :: rest))
    (taken : worker.takeUp extraction shared.live record rest = (after, live)) :
    Moves extraction worker shared after { shared with live := live } := by
  have passedOver (wellFormed : ∀ fault, extraction.judge record ≠ .malformed fault)
      (unwanted : ∀ path, extraction.judge record ≠ .accepted path)
      (same : (worker.counting extraction record).goTo (.processing rest) = after) :
      Moves extraction worker shared after { shared with live := live } :=
    same ▸ .passedOver live phase wellFormed unwanted
  have first : (worker.takeUp extraction shared.live record rest).1 = after :=
    congrArg Prod.fst taken
  unfold takeUp at first
  cases verdict : extraction.judge record with
  | malformed fault =>
    simp only [verdict] at first
    have moved : Moves extraction worker shared _ _ := .malformed live phase verdict
    rw [counting, verdict] at moved
    exact first ▸ moved
  | accepted path =>
    simp only [verdict] at first
    cases bytes : extraction.payload path record with
    | error cause =>
      simp only [bytes] at first
      have moved : Moves extraction worker shared _ _ := .unencodable live phase verdict bytes
      rw [counting, verdict] at moved
      exact first ▸ moved
    | ok payload =>
      simp only [bytes] at first
      have moved : Moves extraction worker shared _ _ := .encoded live phase verdict bytes
      rw [counting, verdict] at moved
      exact first ▸ moved
  | _ =>
    simp only [verdict] at first
    refine passedOver ?_ ?_ ?_
    · simp [verdict]
    · simp [verdict]
    · rw [counting, verdict]
      exact first

theorem moves_of_place {path : String} {payload : Bytes} {rest : List Record}
    {live : LiveCounters} (phase : worker.phase = .placing path payload rest)
    (placed : worker.place shared.live path payload rest = (after, live)) :
    Moves extraction worker shared after { shared with live := live } := by
  unfold place at placed
  cases current : worker.current with
  | none =>
    simp only [current] at placed
    cases placed
    exact .placeFirst phase current
  | some buffer =>
    simp only [current] at placed
    cases space : buffer.batch.hasSpace payload.length with
    | true =>
      simp only [space, EntryBatch.add, Bool.not_true, Bool.false_eq_true, if_true, if_false]
        at placed
      by_cases long : Length.limit ≤ payload.length
      · simp only [long, if_true] at placed
        cases placed
        exact .tooLong phase current space long
      · simp only [long, if_false] at placed
        cases placed
        exact .placed _ phase current space (Nat.not_le.mp long)
    | false =>
      simp only [space, Bool.false_eq_true, if_false] at placed
      cases empty : buffer.batch.isEmpty with
      | true =>
        simp only [empty, if_true] at placed
        cases placed
        exact .oversized phase current space empty
      | false =>
        simp only [empty, Bool.false_eq_true, if_false] at placed
        cases placed
        exact .placeFull phase current space empty

theorem moves_of_flush (phase : worker.phase = .flushing) :
    Moves extraction worker shared worker.flush shared := by
  unfold flush
  cases current : worker.current with
  | none => exact .flushNothing phase current
  | some buffer =>
    cases empty : buffer.batch.isEmpty with
    | true =>
      simp only [empty, if_true]
      exact .flushEmpty phase current empty
    | false =>
      simp only [empty, Bool.false_eq_true, if_false]
      exact .flushLast phase current empty

theorem moves_of_step (isOpen : shared.IsOpen) (shaped : worker.IsShaped)
    (step : worker.step? extraction side shared = some (after, sharedAfter)) :
    Moves extraction worker shared after sharedAfter := by
  unfold step? at step
  cases phase : worker.phase with
  | receiving attempt =>
    simp only [phase] at step
    obtain ⟨⟨queue, progress⟩, received, same⟩ := Option.map_eq_some_iff.mp step
    cases Queue.receives_of_receive received with
    | stopped set =>
      cases same
      exact .receiveStopped phase set
    | ready clear =>
      cases same
      exact .receiveReady phase clear
    | @taken item rest first =>
      cases item with
      | batch batch =>
        cases same
        exact .received phase first
      | endOfStream =>
        cases same
        exact .receivedEnd phase first
    | closed nobody => exact absurd nobody isOpen.fed
  | processing left =>
    cases left with
    | nil =>
      simp only [phase] at step
      cases step
      exact .batchDone phase
    | cons record rest =>
      simp only [phase] at step
      rcases taken : worker.takeUp extraction shared.live record rest with ⟨worked, live⟩
      rw [taken] at step
      cases step
      exact moves_of_takeUp phase taken
  | placing path payload rest =>
    simp only [phase] at step
    rcases placed : worker.place shared.live path payload rest with ⟨worked, live⟩
    rw [placed] at step
    cases step
    exact moves_of_place phase placed
  | acquiring call path payload rest =>
    have kind : call.kind = .acquire := by
      simp only [IsShaped, phase] at shaped
      exact shaped.1
    simp only [phase] at step
    obtain ⟨⟨pool, progress⟩, advanced, same⟩ := Option.map_eq_some_iff.mp step
    have moved := Pool.Call.advances_of_advance isOpen.pool advanced
    cases progress with
    | going next =>
      cases same
      exact .acquiring phase kind moved
    | answered outcome =>
      cases outcome with
      | error cause =>
        cases same
        exact .acquireFailed phase kind moved
      | ok answer =>
        cases moved with
        | acquired buffer =>
          cases same
          exact .acquired phase kind (.acquired buffer)
        | _ => cases kind
  | submitting call path payload rest =>
    have kind : call.kind = .submit := by
      simp only [IsShaped, phase] at shaped
      exact shaped.1
    simp only [phase] at step
    obtain ⟨⟨pool, progress⟩, advanced, same⟩ := Option.map_eq_some_iff.mp step
    have moved := Pool.Call.advances_of_advance isOpen.pool advanced
    cases progress with
    | going next =>
      cases same
      exact .submitting phase kind moved
    | answered outcome =>
      cases outcome with
      | error cause =>
        cases same
        exact .submitFailed phase kind moved
      | ok answer =>
        cases same
        exact .submitted phase kind moved
  | forwarding attempt =>
    simp only [phase] at step
    obtain ⟨⟨queue, progress⟩, sent, same⟩ := Option.map_eq_some_iff.mp step
    cases Queue.sends_of_send sent with
    | stopped set =>
      cases same
      exact .forwardStopped phase set
    | ready clear =>
      cases same
      exact .forwardReady phase clear
    | sent room =>
      cases same
      exact .forwarded phase room
    | gone nobody => exact absurd nobody isOpen.heard
  | flushing =>
    simp only [phase] at step
    cases step
    exact moves_of_flush phase
  | givingUp call =>
    have kind : call.kind = .submit ∨ call.kind = .giveBack := by
      simp only [IsShaped, phase] at shaped
      exact shaped.1
    simp only [phase] at step
    obtain ⟨⟨pool, progress⟩, advanced, same⟩ := Option.map_eq_some_iff.mp step
    have moved := Pool.Call.advances_of_advance isOpen.pool advanced
    cases progress with
    | going next =>
      cases same
      exact .givingUp phase kind moved
    | answered outcome =>
      cases outcome with
      | error cause =>
        cases same
        exact .giveUpFailed phase kind moved
      | ok answer =>
        cases same
        exact .gaveUp phase kind moved
  | finished =>
    simp only [phase] at step
    cases step
  | failed cause =>
    simp only [phase] at step
    cases step

/-- A worker that moves is not over, keeps its number, and leaves the ends of the queues alone. -/
theorem Moves.ends (step : Moves extraction worker shared after sharedAfter) :
    worker.outcome? = none ∧ after.id = worker.id ∧ after.cancelled = worker.cancelled ∧
      sharedAfter.raw.senders = shared.raw.senders ∧
      sharedAfter.raw.receivers = shared.raw.receivers ∧
      sharedAfter.raw.capacity = shared.raw.capacity := by
  cases step <;> refine ⟨?_, rfl, rfl, rfl, rfl, rfl⟩ <;>
    simp only [outcome?, ‹worker.phase = _›]

theorem Moves.phase_ne_finished (step : Moves extraction worker shared after sharedAfter) :
    worker.phase ≠ .finished := by
  intro isOver
  have runs := step.ends.1
  simp only [outcome?, isOver] at runs
  cases runs

theorem Moves.isOpen (step : Moves extraction worker shared after sharedAfter)
    (isOpen : shared.pool.IsOpen) : sharedAfter.pool.IsOpen := by
  cases step with
  | acquiring _ _ advance => exact advance.isOpen isOpen
  | acquired _ _ advance => exact advance.isOpen isOpen
  | acquireFailed _ _ advance => exact advance.isOpen isOpen
  | submitting _ _ advance => exact advance.isOpen isOpen
  | submitted _ _ advance => exact advance.isOpen isOpen
  | submitFailed _ _ advance => exact advance.isOpen isOpen
  | givingUp _ _ advance => exact advance.isOpen isOpen
  | gaveUp _ _ advance => exact advance.isOpen isOpen
  | giveUpFailed _ _ advance => exact advance.isOpen isOpen
  | _ => exact isOpen

theorem Moves.isShaped (step : Moves extraction worker shared after sharedAfter)
    (shaped : worker.IsShaped) : after.IsShaped := by
  cases step with
  | placeFirst _ nothing => exact ⟨rfl, nothing⟩
  | acquiring phase _ advance =>
    simp only [IsShaped, phase] at shaped
    exact ⟨advance.kind_eq.trans shaped.1, shaped.2⟩
  | placeFull => exact ⟨rfl, rfl⟩
  | submitting phase _ advance =>
    simp only [IsShaped, phase] at shaped
    exact ⟨advance.kind_eq.trans shaped.1, shaped.2⟩
  | flushNothing _ nothing => exact nothing
  | flushEmpty => exact ⟨.inr rfl, rfl⟩
  | flushLast => exact ⟨.inl rfl, rfl⟩
  | givingUp phase _ advance =>
    simp only [IsShaped, phase] at shaped
    refine ⟨?_, shaped.2⟩
    rw [advance.kind_eq]
    exact shaped.1
  | gaveUp phase =>
    simp only [IsShaped, phase] at shaped
    exact shaped.2
  | _ => trivial

theorem phase_eq_finished {worker : Worker} (outcome : worker.outcome? = some (.ok ())) :
    worker.phase = .finished := by
  unfold outcome? at outcome
  split at outcome
  · assumption
  · cases outcome
  · cases outcome

end Worker

/-! ## Sort-and-store -/

namespace Storer

/-- The operation on the pool that sort-and-store is at. -/
def call? (storer : Storer) : Option Pool.Call :=
  match storer.phase with
  | .acquiring call => some call
  | .returning call => some call
  | _ => none

theorem call?_of_acquiring {storer : Storer} {call : Pool.Call}
    (phase : storer.phase = .acquiring call) :
    storer.call? = some call := by
  simp only [call?, phase]

theorem call?_of_returning {storer : Storer} {call : Pool.Call}
    (phase : storer.phase = .returning call) :
    storer.call? = some call := by
  simp only [call?, phase]

/-- The operation that sort-and-store is at is one that belongs there. -/
def IsShaped (storer : Storer) : Prop :=
  match storer.phase with
  | .acquiring call => call.kind = .fetch
  | .returning call => call.kind = .giveBack
  | _ => True

/-- What a step of sort-and-store can do at a time, where it may be assured that operations on files
succeed. -/
inductive Moves (assured : Prop) (time : Moment) (storer : Storer) (pool : Pool) (files : Files) :
    Storer → Pool → Files → Prop
  | fetching {call next : Pool.Call} {after : Pool} (phase : storer.phase = .acquiring call)
      (kind : call.kind = .fetch)
      (step : Pool.Call.Advances pool storer.cancelled call after (.going next)) :
      Moves assured time storer pool files (storer.goTo (.acquiring next)) after files
  | fetched {call : Pool.Call} {after : Pool} {buffer : Buffer}
      (phase : storer.phase = .acquiring call) (kind : call.kind = .fetch)
      (step : Pool.Call.Advances pool storer.cancelled call after
        (.answered (.ok (.item (.buffer buffer))))) :
      Moves assured time storer pool files (storer.goTo (.storing buffer)) after files
  | ended {call : Pool.Call} {after : Pool} (phase : storer.phase = .acquiring call)
      (kind : call.kind = .fetch)
      (step : Pool.Call.Advances pool storer.cancelled call after
        (.answered (.ok (.item .endOfInput)))) :
      Moves assured time storer pool files (storer.goTo .finished) after files
  | fetchFailed {call : Pool.Call} {after : Pool} {cause : Error}
      (phase : storer.phase = .acquiring call) (kind : call.kind = .fetch)
      (step : Pool.Call.Advances pool storer.cancelled call after (.answered (.error cause))) :
      Moves assured time storer pool files (storer.goTo (.failed cause)) after files
  | stored {buffer : Buffer} {after : Storer} {changed : Files}
      (phase : storer.phase = .storing buffer)
      (done : (storer.store buffer).runOn time files = (.ok after, changed)) :
      Moves assured time storer pool files after pool changed
  | storeFailed {buffer : Buffer} {cause : Error} {changed : Files}
      (phase : storer.phase = .storing buffer)
      (failed : (storer.store buffer).runOn time files = (.error cause, changed))
      (steady : assured → Program.Steady time (storer.store buffer).run files) :
      Moves assured time storer pool files (storer.goTo (.failed cause)) pool changed
  | returning {call next : Pool.Call} {after : Pool} (phase : storer.phase = .returning call)
      (kind : call.kind = .giveBack)
      (step : Pool.Call.Advances pool storer.cancelled call after (.going next)) :
      Moves assured time storer pool files (storer.goTo (.returning next)) after files
  | returned {call : Pool.Call} {after : Pool} {answer : Pool.Answer}
      (phase : storer.phase = .returning call) (kind : call.kind = .giveBack)
      (step : Pool.Call.Advances pool storer.cancelled call after (.answered (.ok answer))) :
      Moves assured time storer pool files (storer.goTo (.acquiring (.takeFull .check))) after files
  | returnFailed {call : Pool.Call} {after : Pool} {cause : Error}
      (phase : storer.phase = .returning call) (kind : call.kind = .giveBack)
      (step : Pool.Call.Advances pool storer.cancelled call after (.answered (.error cause))) :
      Moves assured time storer pool files (storer.goTo (.failed cause)) after files

variable {assured : Prop} {time : Moment} {side : Side} {storer after : Storer} {pool poolAfter : Pool}
  {files changed : Files} {program : Program (Storer × Pool)}

theorem moves_of_step (isOpen : pool.IsOpen) (shaped : storer.IsShaped)
    (step : storer.step? side pool = some program)
    (ran : program.run time files = ((after, poolAfter), changed))
    (steady : assured → Program.Steady time program files) :
    Moves assured time storer pool files after poolAfter changed := by
  unfold step? at step
  cases phase : storer.phase with
  | acquiring call =>
    have kind : call.kind = .fetch := by
      simp only [IsShaped, phase] at shaped
      exact shaped
    simp only [phase] at step
    obtain ⟨⟨pool, progress⟩, advanced, rfl⟩ := Option.map_eq_some_iff.mp step
    have moved := Pool.Call.advances_of_advance isOpen advanced
    cases progress with
    | going next =>
      cases ran
      exact .fetching phase kind moved
    | answered outcome =>
      cases outcome with
      | error cause =>
        cases ran
        exact .fetchFailed phase kind moved
      | ok answer =>
        cases moved with
        | fetchEnd first =>
          cases ran
          exact .ended phase kind (.fetchEnd first)
        | fetched buffer =>
          cases ran
          exact .fetched phase kind (.fetched buffer)
        | _ => cases kind
  | storing buffer =>
    simp only [phase] at step
    cases step
    rcases outcome : (storer.store buffer).runOn time files with ⟨answer, left⟩
    have answered : (storer.store buffer).run.run time files = (answer, left) := outcome
    simp only [bind, Program.run_andThen, answered] at ran
    cases answer with
    | ok stored =>
      cases ran
      exact .stored phase outcome
    | error cause =>
      cases ran
      exact .storeFailed phase outcome fun sure =>
        ((Program.steady_andThen _ _ _ _).mp (steady sure)).1
  | returning call =>
    have kind : call.kind = .giveBack := by
      simp only [IsShaped, phase] at shaped
      exact shaped
    simp only [phase] at step
    obtain ⟨⟨pool, progress⟩, advanced, rfl⟩ := Option.map_eq_some_iff.mp step
    have moved := Pool.Call.advances_of_advance isOpen advanced
    cases progress with
    | going next =>
      cases ran
      exact .returning phase kind moved
    | answered outcome =>
      cases outcome with
      | error cause =>
        cases ran
        exact .returnFailed phase kind moved
      | ok answer =>
        cases ran
        exact .returned phase kind moved
  | finished =>
    simp only [phase] at step
    cases step
  | failed cause =>
    simp only [phase] at step
    cases step

theorem Moves.isOpen (step : Moves assured time storer pool files after poolAfter changed)
    (isOpen : pool.IsOpen) : poolAfter.IsOpen := by
  cases step with
  | fetching _ _ advance => exact advance.isOpen isOpen
  | fetched _ _ advance => exact advance.isOpen isOpen
  | ended _ _ advance => exact advance.isOpen isOpen
  | fetchFailed _ _ advance => exact advance.isOpen isOpen
  | returning _ _ advance => exact advance.isOpen isOpen
  | returned _ _ advance => exact advance.isOpen isOpen
  | returnFailed _ _ advance => exact advance.isOpen isOpen
  | _ => exact isOpen

/-- Storing a buffer sorts it, appends its entries as one run, and leaves it to be returned. -/
theorem store_ok {buffer : Buffer}
    (done : (storer.store buffer).runOn time files = (.ok after, changed)) :
    ∃ entries answer, buffer.batch.sort.storedEntries = .ok entries ∧
      (storer.writer.append entries).runOn time files = (.ok answer, changed) ∧
      after =
        { storer with
          writer := answer.2
          entries := storer.entries + entries.length
          batches := storer.batches + 1
          phase := .returning (.giveBack { buffer with batch := buffer.batch.sort }) } := by
  unfold store at done
  obtain ⟨entries, start, read, rest⟩ := FileTask.runOn_bind_ok done
  obtain ⟨answer, middle, appended, last⟩ := FileTask.runOn_bind_ok rest
  cases last
  cases found : buffer.batch.sort.storedEntries with
  | error cause =>
    rw [found] at read
    cases read
  | ok listed =>
    rw [found] at read
    cases read
    exact ⟨entries, answer, rfl, appended, rfl⟩

/-- Sort-and-store that moves is not over. -/
theorem Moves.ends (step : Moves assured time storer pool files after poolAfter changed) :
    storer.outcome? = none ∧ after.cancelled = storer.cancelled := by
  cases step with
  | stored phase done =>
    obtain ⟨entries, answer, -, -, rfl⟩ := store_ok done
    exact ⟨by simp only [outcome?, phase], rfl⟩
  | _ => exact ⟨by simp only [outcome?, ‹storer.phase = _›], rfl⟩

theorem Moves.phase_ne_finished
    (step : Moves assured time storer pool files after poolAfter changed) :
    storer.phase ≠ .finished := by
  intro isOver
  have runs := step.ends.1
  simp only [outcome?, isOver] at runs
  cases runs

theorem Moves.isShaped (step : Moves assured time storer pool files after poolAfter changed) :
    after.IsShaped := by
  cases step with
  | fetching _ kind advance => exact advance.kind_eq.trans kind
  | stored phase done =>
    obtain ⟨entries, answer, -, -, rfl⟩ := store_ok done
    exact rfl
  | returning _ kind advance => exact advance.kind_eq.trans kind
  | returned => exact rfl
  | _ => trivial

theorem phase_eq_finished {storer : Storer} (outcome : storer.outcome? = some (.ok ())) :
    storer.phase = .finished := by
  unfold outcome? at outcome
  split at outcome
  · assumption
  · cases outcome
  · cases outcome

end Storer

end TreeExport

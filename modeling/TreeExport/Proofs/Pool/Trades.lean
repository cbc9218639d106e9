import TreeExport.Proofs.Pool.Calls

/-!
# What an operation does with the queues of a pool

An operation moves buffers one at a time: what it takes from a queue it holds, and what it holds it
puts into a queue, unless it is stopped.
-/

namespace TreeExport.Pool

/-- The number of buffers that an operation holds. -/
def Call.held : Call → Nat
  | .tookEmpty _ => 1
  | .submit _ => 1
  | .countFull _ => 1
  | .offerFull _ _ => 1
  | .tookFull _ => 1
  | .giveBack _ => 1
  | .offerEmpty _ _ => 1
  | _ => 0

/-- The number of buffers that are in an answer. -/
def Answer.held : Answer → Nat
  | .buffer _ => 1
  | .item (.buffer _) => 1
  | _ => 0

/-- The number of buffers that an operation holds or answers with. -/
def Progress.held : Progress → Nat
  | .going call => call.held
  | .answered (.ok answer) => answer.held
  | .answered (.error _) => 0

/-- What somebody who fills buffers does with the queues, who held some buffers before and holds
some after. -/
inductive Fills (stopped : Prop) (pool : Pool) (held : Nat) (after : Pool) (heldAfter : Nat) : Prop
  | quiet (empties : after.empties.items = pool.empties.items)
      (fulls : after.fulls.items = pool.fulls.items) (same : heldAfter = held)
  | takes {buffer : Buffer} (first : pool.empties.items = buffer :: after.empties.items)
      (fulls : after.fulls.items = pool.fulls.items) (more : heldAfter = held + 1)
  | submits {buffer : Buffer} (last : after.fulls.items = pool.fulls.items ++ [.buffer buffer])
      (empties : after.empties.items = pool.empties.items) (less : heldAfter + 1 = held)
  | givesBack {buffer : Buffer} (last : after.empties.items = pool.empties.items ++ [buffer])
      (fulls : after.fulls.items = pool.fulls.items) (less : heldAfter + 1 = held)
  | drops (empties : after.empties.items = pool.empties.items)
      (fulls : after.fulls.items = pool.fulls.items) (less : heldAfter ≤ held) (why : stopped)

/-- What somebody who empties buffers does with the queues. -/
inductive Empties (stopped : Prop) (pool : Pool) (held : Nat) (after : Pool) (heldAfter : Nat) :
    Prop
  | quiet (empties : after.empties.items = pool.empties.items)
      (fulls : after.fulls.items = pool.fulls.items) (same : heldAfter = held)
  | takes {buffer : Buffer} (first : pool.fulls.items = .buffer buffer :: after.fulls.items)
      (empties : after.empties.items = pool.empties.items) (more : heldAfter = held + 1)
  | givesBack {buffer : Buffer} (last : after.empties.items = pool.empties.items ++ [buffer])
      (fulls : after.fulls.items = pool.fulls.items) (less : heldAfter + 1 = held)
  | drops (empties : after.empties.items = pool.empties.items)
      (fulls : after.fulls.items = pool.fulls.items) (less : heldAfter ≤ held) (why : stopped)

theorem Fills.mono {stopped why : Prop} {pool after : Pool} {held heldAfter : Nat}
    (fills : Fills stopped pool held after heldAfter) (implies : stopped → why) :
    Fills why pool held after heldAfter := by
  cases fills with
  | quiet empties fulls same => exact .quiet empties fulls same
  | takes first fulls more => exact .takes first fulls more
  | submits last empties less => exact .submits last empties less
  | givesBack last fulls less => exact .givesBack last fulls less
  | drops empties fulls less reason => exact .drops empties fulls less (implies reason)

theorem Empties.mono {stopped why : Prop} {pool after : Pool} {held heldAfter : Nat}
    (empties : Empties stopped pool held after heldAfter) (implies : stopped → why) :
    Empties why pool held after heldAfter := by
  cases empties with
  | quiet empties fulls same => exact .quiet empties fulls same
  | takes first empties more => exact .takes first empties more
  | givesBack last fulls less => exact .givesBack last fulls less
  | drops empties fulls less reason => exact .drops empties fulls less (implies reason)

namespace Call

variable {pool after : Pool} {cancelled : Bool} {call : Call} {progress : Progress}

theorem Advances.fills (step : Advances pool cancelled call after progress)
    (kind : call.kind = .acquire ∨ call.kind = .submit ∨ call.kind = .giveBack) :
    Fills (cancelled = true ∨ pool.ended = true) pool call.held after progress.held := by
  cases step with
  | acquireStopped set => exact .quiet rfl rfl rfl
  | acquireReady => exact .quiet rfl rfl rfl
  | acquireFirst first => exact .takes first rfl rfl
  | acquired => exact .quiet rfl rfl rfl
  | submitLate buffer ended => exact .drops rfl rfl (Nat.zero_le _) (.inr ended)
  | submit => exact .quiet rfl rfl rfl
  | countFull => exact .quiet rfl rfl rfl
  | submitStopped buffer set => exact .drops rfl rfl (Nat.zero_le _) (.inl set)
  | submitReady => exact .quiet rfl rfl rfl
  | submitted => exact .submits rfl rfl rfl
  | recountHeld => exact .quiet rfl rfl rfl
  | giveBack => exact .quiet rfl rfl rfl
  | giveBackStopped buffer set => exact .drops rfl rfl (Nat.zero_le _) (.inl set)
  | giveBackReady => exact .quiet rfl rfl rfl
  | givenBack => exact .givesBack rfl rfl rfl
  | reclaimHeld => exact .quiet rfl rfl rfl
  | _ => rcases kind with other | other | other <;> cases other

theorem Advances.empties (step : Advances pool cancelled call after progress)
    (kind : call.kind = .fetch ∨ call.kind = .giveBack)
    (goesOn : progress ≠ .answered (.ok (.item .endOfInput))) :
    Empties (cancelled = true) pool call.held after progress.held := by
  cases step with
  | fetchStopped set => exact .quiet rfl rfl rfl
  | fetchReady => exact .quiet rfl rfl rfl
  | fetchFirst first => exact .takes first rfl rfl
  | fetchEnd first => exact absurd rfl goesOn
  | fetched => exact .quiet rfl rfl rfl
  | giveBack => exact .quiet rfl rfl rfl
  | giveBackStopped buffer set => exact .drops rfl rfl (Nat.zero_le _) set
  | giveBackReady => exact .quiet rfl rfl rfl
  | givenBack => exact .givesBack rfl rfl rfl
  | reclaimHeld => exact .quiet rfl rfl rfl
  | _ => rcases kind with other | other <;> cases other

/-- The queues keep their capacities. -/
theorem Advances.capacity_eq (step : Advances pool cancelled call after progress) :
    after.empties.capacity = pool.empties.capacity ∧
      after.fulls.capacity = pool.fulls.capacity := by
  cases step <;> exact ⟨rfl, rfl⟩

/-- Only signalling sets down the end of input. -/
theorem Advances.ended_eq (step : Advances pool cancelled call after progress)
    (kind : call.kind ≠ .signal) : after.ended = pool.ended := by
  cases step with
  | signalEnd => exact absurd rfl kind
  | _ => rfl

/-- The next step of an operation is possible unless it waits for a buffer that is not there, or has
a buffer to put where there is no room. -/
theorem advance_isSome (isOpen : pool.IsOpen)
    (acquires : call = .takeEmpty .wait → pool.empties.items ≠ [])
    (fetches : call = .takeFull .wait → pool.fulls.items ≠ [])
    (room : call.held = 1 → pool.empties.items.length < pool.empties.capacity ∧
      pool.fulls.items.length < pool.fulls.capacity) :
    (call.advance pool cancelled .queue).isSome := by
  cases call with
  | takeEmpty attempt =>
    rw [advance, Option.isSome_map]
    cases attempt with
    | check => exact Queue.receive_check _ _
    | wait => exact Queue.receive_wait (acquires rfl)
  | takeFull attempt =>
    rw [advance, Option.isSome_map]
    cases attempt with
    | check => exact Queue.receive_check _ _
    | wait => exact Queue.receive_wait (fetches rfl)
  | offerFull buffer attempt =>
    rw [advance, Option.isSome_map]
    cases attempt with
    | check => exact Queue.send_check _ _ _
    | wait => exact Queue.send_wait isOpen.fullsHeard (room rfl).2
  | offerEmpty buffer attempt =>
    rw [advance, Option.isSome_map]
    cases attempt with
    | check => exact Queue.send_check _ _ _
    | wait => exact Queue.send_wait isOpen.emptiesHeard (room rfl).1
  | signalEnd =>
    rw [advance]
    split <;> rfl
  | placeEnd =>
    rw [advance]
    split <;> rfl
  | drain released =>
    rw [advance]
    split <;> rfl
  | _ => rfl

end Call

end TreeExport.Pool

import TreeExport.Error

/-!
# Bounded queues that a token can interrupt

A queue hands items from its senders to its receivers in order and holds no more than its capacity.
A stage that sends or receives first looks at its token, and then waits for the queue and for the
token at the same time.  These are two steps: between them, and while a stage waits, everything else
may happen.  When queue and token are both ready, either may be taken, so a step names the side that
it takes.
-/

namespace TreeExport

/-- Items on their way, and the numbers of those who may send and receive. -/
structure Queue (α : Type) where
  capacity : Nat
  items : List α := []
  senders : Nat := 1
  receivers : Nat := 1
  deriving Repr

namespace Queue

variable {α : Type}

/-- What becomes of an offered item. -/
inductive Offered (α : Type)
  /-- The item is in the queue. -/
  | accepted (queue : Queue α)
  /-- Nobody will receive it. -/
  | refused
  /-- The queue is full. -/
  | blocked

/-- Offers an item.  A queue without capacity never has room for one. -/
def offer (queue : Queue α) (item : α) : Offered α :=
  if queue.receivers = 0 then .refused
  else if queue.items.length < queue.capacity then
    .accepted { queue with items := queue.items ++ [item] }
  else .blocked

/-- What comes of asking for an item. -/
inductive Taken (α : Type)
  /-- The first item, and the queue without it. -/
  | item (item : α) (queue : Queue α)
  /-- Nobody will send one. -/
  | closed
  /-- The queue is empty. -/
  | blocked

/-- Asks for the first item. -/
def take (queue : Queue α) : Taken α :=
  match queue.items with
  | item :: rest => .item item { queue with items := rest }
  | [] => if queue.senders = 0 then .closed else .blocked

/-- The queue with one sender less. -/
def dropSender (queue : Queue α) : Queue α :=
  { queue with senders := queue.senders - 1 }

/-- The queue with one receiver less. -/
def dropReceiver (queue : Queue α) : Queue α :=
  { queue with receivers := queue.receivers - 1 }

end Queue

/-- How far an operation has got that a token can interrupt. -/
inductive Attempt
  /-- The token is about to be looked at. -/
  | check
  /-- The stage waits for queue and token. -/
  | wait
  deriving Repr, DecidableEq

/-- The side that a waiting stage takes. -/
inductive Side
  | queue
  | token
  deriving Repr, DecidableEq

/-- How an interruptible operation goes on. -/
inductive Interruptible (β : Type)
  /-- The token was clear; the stage waits. -/
  | waiting
  /-- The operation is over. -/
  | over (outcome : Except Error β)

namespace Queue

variable {α : Type}

/-- The failure of sending to a queue that nobody will receive from. -/
def receiverGone : Error := .validation "queue receiver disconnected"

/-- One step of sending an item; none if the side that is named is not ready.  The queue changes
only if it takes the item. -/
def send (queue : Queue α) (item : α) (cancelled : Bool) (side : Side) :
    Attempt → Option (Queue α × Interruptible Unit)
  | .check => some (queue, if cancelled then .over (.error .cancelled) else .waiting)
  | .wait =>
    match side with
    | .token => if cancelled then some (queue, .over (.error .cancelled)) else none
    | .queue =>
      match queue.offer item with
      | .accepted queue => some (queue, .over (.ok ()))
      | .refused => some (queue, .over (.error receiverGone))
      | .blocked => none

/-- One step of receiving an item, or nothing once the queue is closed; none if the side that is
named is not ready. -/
def receive (queue : Queue α) (cancelled : Bool) (side : Side) :
    Attempt → Option (Queue α × Interruptible (Option α))
  | .check => some (queue, if cancelled then .over (.error .cancelled) else .waiting)
  | .wait =>
    match side with
    | .token => if cancelled then some (queue, .over (.error .cancelled)) else none
    | .queue =>
      match queue.take with
      | .item item queue => some (queue, .over (.ok (some item)))
      | .closed => some (queue, .over (.ok none))
      | .blocked => none

/-- Sends an item while nothing else happens; none if that would wait for ever. -/
def sendNow (queue : Queue α) (item : α) (cancelled : Bool) :
    Option (Queue α × Except Error Unit) :=
  match queue.send item cancelled .queue .check with
  | some (queue, .over outcome) => some (queue, outcome)
  | _ =>
    match queue.send item cancelled .queue .wait with
    | some (queue, .over outcome) => some (queue, outcome)
    | _ => none

/-- Receives an item while nothing else happens; none if that would wait for ever. -/
def receiveNow (queue : Queue α) (cancelled : Bool) :
    Option (Queue α × Except Error (Option α)) :=
  match queue.receive cancelled .queue .check with
  | some (queue, .over outcome) => some (queue, outcome)
  | _ =>
    match queue.receive cancelled .queue .wait with
    | some (queue, .over outcome) => some (queue, outcome)
    | _ => none

end Queue

end TreeExport

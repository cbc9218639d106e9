import TreeExport.Queue

/-!
# What a step on a queue can do

`sends_of_send` and `receives_of_receive` say once what comes of a step of sending and of receiving.
-/

namespace TreeExport.Queue

variable {α : Type} {queue after : Queue α} {cancelled : Bool} {side : Side} {attempt : Attempt}

/-- What a step of sending can do. -/
inductive Sends (queue : Queue α) (item : α) (cancelled : Bool) :
    Attempt → Queue α → Interruptible Unit → Prop
  | stopped {attempt : Attempt} (set : cancelled = true) :
      Sends queue item cancelled attempt queue (.over (.error .cancelled))
  | ready (clear : cancelled = false) : Sends queue item cancelled .check queue .waiting
  | sent (room : queue.items.length < queue.capacity) :
      Sends queue item cancelled .wait { queue with items := queue.items ++ [item] }
        (.over (.ok ()))
  | gone (nobody : queue.receivers = 0) :
      Sends queue item cancelled .wait queue (.over (.error receiverGone))

theorem sends_of_send {item : α} {progress : Interruptible Unit}
    (step : queue.send item cancelled side attempt = some (after, progress)) :
    Sends queue item cancelled attempt after progress := by
  unfold send at step
  cases attempt with
  | check =>
    cases cancelled with
    | false =>
      cases step
      exact .ready rfl
    | true =>
      cases step
      exact .stopped rfl
  | wait =>
    cases side with
    | token =>
      cases cancelled with
      | false => cases step
      | true =>
        cases step
        exact .stopped rfl
    | queue =>
      simp only [offer] at step
      by_cases nobody : queue.receivers = 0
      · simp only [nobody, if_true] at step
        cases step
        exact .gone nobody
      · by_cases room : queue.items.length < queue.capacity
        · simp only [nobody, room, if_true, if_false] at step
          cases step
          exact .sent room
        · simp only [nobody, room, if_false] at step
          cases step

/-- What a step of receiving can do. -/
inductive Receives (queue : Queue α) (cancelled : Bool) :
    Attempt → Queue α → Interruptible (Option α) → Prop
  | stopped {attempt : Attempt} (set : cancelled = true) :
      Receives queue cancelled attempt queue (.over (.error .cancelled))
  | ready (clear : cancelled = false) : Receives queue cancelled .check queue .waiting
  | taken {item : α} {rest : List α} (first : queue.items = item :: rest) :
      Receives queue cancelled .wait { queue with items := rest } (.over (.ok (some item)))
  | closed (nobody : queue.senders = 0) :
      Receives queue cancelled .wait queue (.over (.ok none))

theorem receives_of_receive {progress : Interruptible (Option α)}
    (step : queue.receive cancelled side attempt = some (after, progress)) :
    Receives queue cancelled attempt after progress := by
  unfold receive at step
  cases attempt with
  | check =>
    cases cancelled with
    | false =>
      cases step
      exact .ready rfl
    | true =>
      cases step
      exact .stopped rfl
  | wait =>
    cases side with
    | token =>
      cases cancelled with
      | false => cases step
      | true =>
        cases step
        exact .stopped rfl
    | queue =>
      simp only [take] at step
      cases items : queue.items with
      | cons item rest =>
        simp only [items] at step
        cases step
        exact .taken items
      | nil =>
        by_cases nobody : queue.senders = 0
        · simp only [items, nobody, if_true] at step
          cases step
          exact .closed nobody
        · simp only [items, nobody, if_false] at step
          cases step

/-! ## What is put into a queue -/

/-- What has been put into a queue, if nothing was taken out. -/
def gained (queue after : Queue α) : List α :=
  after.items.drop queue.items.length

theorem gained_of_append {more : List α} (items : after.items = queue.items ++ more) :
    queue.gained after = more := by
  rw [gained, items, List.drop_left]

theorem gained_of_suffix {taken : List α} (items : queue.items = taken ++ after.items) :
    queue.gained after = [] := by
  rw [gained, items, List.drop_eq_nil_iff, List.length_append]
  omega

/-- What has been taken out of a queue, if nothing was put in. -/
def lost (queue after : Queue α) : List α :=
  queue.items.take (queue.items.length - after.items.length)

theorem lost_of_suffix (taken : List α) (items : queue.items = taken ++ after.items) :
    queue.lost after = taken := by
  rw [lost, items, List.length_append, Nat.add_sub_cancel, List.take_left]

theorem lost_of_cons {item : α} (items : queue.items = item :: after.items) :
    queue.lost after = [item] :=
  lost_of_suffix [item] items

theorem lost_of_same (items : after.items = queue.items) : queue.lost after = [] :=
  lost_of_suffix [] items.symm

theorem lost_of_append {more : List α} (items : after.items = queue.items ++ more) :
    queue.lost after = [] := by
  rw [lost, items, List.length_append, Nat.sub_eq_zero_of_le (Nat.le_add_right _ _)]
  rfl

/-! ## When a step is possible -/

theorem send_check (item : α) (cancelled : Bool) (side : Side) :
    (queue.send item cancelled side .check).isSome :=
  rfl

theorem send_wait {item : α} (heard : queue.receivers ≠ 0)
    (room : queue.items.length < queue.capacity) :
    (queue.send item cancelled .queue .wait).isSome := by
  simp only [send, offer, heard, room, if_true, if_false, Option.isSome_some]

theorem receive_check (cancelled : Bool) (side : Side) :
    (queue.receive cancelled side .check).isSome :=
  rfl

theorem receive_wait (nonempty : queue.items ≠ []) :
    (queue.receive cancelled .queue .wait).isSome := by
  cases items : queue.items with
  | nil => exact absurd items nonempty
  | cons item rest => simp only [receive, take, items, Option.isSome_some]

end TreeExport.Queue

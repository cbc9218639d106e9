import Mathlib.Logic.Relation
import TreeExport.Proofs.Pool.Counts
import TreeExport.Proofs.Totals

/-!
# All who use a pool

Any number of users call the operations of one pool, each step of each operation at any time, with
their tokens set or not.  A user hands on what he has acquired at most once; he may also drop it.
In whatever order they go on, every buffer of the pool is in one place (`Scene.Reaches.conserves`),
and the counts are exact but for the buffers whose count and whose place are moved by one operation
one after the other.
-/

namespace TreeExport.Pool

/-! ## Users -/

/-- The buffer that an operation names. -/
def Call.buffer? : Call → Option Buffer
  | tookEmpty buffer => some buffer
  | submit buffer => some buffer
  | countFull buffer => some buffer
  | offerFull buffer _ => some buffer
  | tookFull buffer => some buffer
  | giveBack buffer => some buffer
  | offerEmpty buffer _ => some buffer
  | _ => none

/-- Somebody who uses a pool: the operation that he is at, the buffer that it is about, and the
buffers that he has acquired and neither handed on nor dropped. -/
structure User where
  call : Option Call := none
  hand : List Buffer := []
  owned : List Buffer := []

/-- A pool and its users, with the buffers that were dropped or not handed on, and those that were
released. -/
structure Scene where
  pool : Pool
  users : List User
  lost : List Buffer := []
  freed : List Buffer := []

/-- How a user begins an operation: what it is about, and what he owns besides. -/
inductive Begins : List Buffer → Call → List Buffer → List Buffer → Prop
  | acquire (owned : List Buffer) : Begins owned (.takeEmpty .check) [] owned
  | submit (buffer : Buffer) (front back : List Buffer) :
      Begins (front ++ buffer :: back) (.submit buffer) [buffer] (front ++ back)
  | fetch (owned : List Buffer) : Begins owned (.takeFull .check) [] owned
  | giveBack (buffer : Buffer) (front back : List Buffer) :
      Begins (front ++ buffer :: back) (.giveBack buffer) [buffer] (front ++ back)
  | signal (owned : List Buffer) : Begins owned .signalEnd [] owned
  | drain (owned : List Buffer) : Begins owned (.drain 0) [] owned

/-- The buffer that an operation is about once it goes on with a call.  What was not handed on, or
is drained, stays in its account until the count is moved. -/
def Call.handAfter (pool : Pool) (hand : List Buffer) : Call → List Buffer
  | recountHeld _ => hand
  | reclaimHeld _ => hand
  | drained _ => pool.empties.items.take 1
  | next => next.buffer?.toList

/-- The buffer that has been released by the time an operation goes on with a call. -/
def Call.frees (hand : List Buffer) : Call → List Buffer
  | drain _ => hand
  | _ => []

/-- What can happen next. -/
inductive Scene.Step (scene : Scene) : Scene → Prop
  | begins {index : Nat} {user : User} {call : Call} {hand owned : List Buffer}
      (here : scene.users[index]? = some user) (idle : user.call = none)
      (begins : Begins user.owned call hand owned) :
      Step scene { scene with users := scene.users.set index ⟨some call, hand, owned⟩ }
  | goesOn {index : Nat} {user : User} {call next : Call} {cancelled : Bool} {side : Side}
      {pool : Pool} (here : scene.users[index]? = some user) (busy : user.call = some call)
      (step : call.advance scene.pool cancelled side = some (pool, .going next)) :
      Step scene
        { pool := pool
          users := scene.users.set index
            { user with call := some next, hand := next.handAfter scene.pool user.hand }
          lost := scene.lost
          freed := scene.freed ++ next.frees user.hand }
  | answered {index : Nat} {user : User} {call : Call} {answer : Answer} {cancelled : Bool}
      {side : Side} {pool : Pool} (here : scene.users[index]? = some user)
      (busy : user.call = some call)
      (step : call.advance scene.pool cancelled side = some (pool, .answered (.ok answer))) :
      Step scene
        { scene with
          pool := pool
          users := scene.users.set index
            { call := none, hand := [], owned := user.owned ++ answer.buffers } }
  | failed {index : Nat} {user : User} {call : Call} {cause : Error} {cancelled : Bool}
      {side : Side} {pool : Pool} (here : scene.users[index]? = some user)
      (busy : user.call = some call)
      (step : call.advance scene.pool cancelled side = some (pool, .answered (.error cause))) :
      Step scene
        { pool := pool
          users := scene.users.set index { user with call := none, hand := [] }
          lost := scene.lost ++ user.hand
          freed := scene.freed }
  | drops {index : Nat} {user : User} {buffer : Buffer} {front back : List Buffer}
      (here : scene.users[index]? = some user) (owned : user.owned = front ++ buffer :: back) :
      Step scene
        { scene with
          users := scene.users.set index { user with owned := front ++ back }
          lost := scene.lost ++ [buffer] }
  | fills {index : Nat} {user : User} {buffer : Buffer} {front back : List Buffer}
      (batch : EntryBatch) (here : scene.users[index]? = some user)
      (owned : user.owned = front ++ buffer :: back) :
      Step scene
        { scene with
          users := scene.users.set index
            { user with owned := front ++ { buffer with batch := batch } :: back } }

namespace Scene

/-- A new pool and users who have done nothing yet. -/
def start (size capacity maxEntries users : Nat) : Scene where
  pool := .create size capacity maxEntries
  users := List.replicate users {}

/-- The scene can come about. -/
def Reaches (size capacity maxEntries users : Nat) (scene : Scene) : Prop :=
  Relation.ReflTransGen Step (start size capacity maxEntries users) scene

/-- The buffers that are really in a place.  What was dropped or not handed on counts as held. -/
def present (scene : Scene) : Slot → List Buffer
  | .held => scene.users.flatMap User.owned ++ scene.lost
  | .released => scene.freed
  | slot => scene.pool.queued slot

/-- The buffers on their way that are counted as being in a place. -/
def moving (scene : Scene) (slot : Slot) : List Buffer :=
  (scene.users.filter fun user => user.call.bind Call.counted = some slot).flatMap User.hand

/-- All buffers. -/
def buffers (scene : Scene) : List Buffer :=
  scene.present .empty ++ (scene.present .full ++ (scene.present .held ++
    (scene.present .released ++ scene.users.flatMap User.hand)))

end Scene

/-! ## One operation -/

/-- How often a number occurs among buffers. -/
def tally (number : Option Nat) (buffers : List Buffer) : Nat :=
  (buffers.map Buffer.number).count number

section Tally

variable (number : Option Nat)

@[simp] theorem tally_nil : tally number [] = 0 := rfl

@[simp] theorem tally_append (front back : List Buffer) :
    tally number (front ++ back) = tally number front + tally number back := by
  rw [tally, List.map_append, List.count_append]
  rfl

theorem tally_cons (buffer : Buffer) (rest : List Buffer) :
    tally number (buffer :: rest) = tally number [buffer] + tally number rest :=
  tally_append number [buffer] rest

theorem tally_flatMap {α : Type} (items : List α) (f : α → List Buffer) :
    tally number (items.flatMap f) = total (items.map fun item => tally number (f item)) := by
  induction items with
  | nil => rfl
  | cons item rest ih => rw [List.flatMap_cons, tally_append, List.map_cons, total_cons, ih]

end Tally

namespace Call

/-- The buffer that an operation is about. -/
structure Fits (call : Call) (hand : List Buffer) : Prop where
  named : ∀ buffer, call.buffer? = some buffer → hand = [buffer]
  length : hand.length = if call.counted.isSome then 1 else 0

variable {pool after : Pool} {cancelled : Bool} {call next : Call} {progress : Progress}
  {hand : List Buffer}

/-- An operation that goes on is about the buffer that it says. -/
theorem Advances.fits (step : Advances pool cancelled call after (.going next))
    (fits : call.Fits hand) : next.Fits (next.handAfter pool hand) := by
  cases step with
  | submitStopped | giveBackStopped => exact ⟨nofun, fits.length⟩
  | drainFirst first =>
    refine ⟨nofun, ?_⟩
    rw [handAfter, first]
    rfl
  | acquireFirst | submit | countFull | submitReady | fetchFirst | giveBack | giveBackReady =>
    exact ⟨fun _ same => by cases same; rfl, rfl⟩
  | _ => exact ⟨nofun, rfl⟩

end Call

theorem Begins.fits {owned hand left : List Buffer} {call : Call} (begins : Begins owned call hand left) :
    call.Fits hand := by
  cases begins with
  | submit | giveBack => exact ⟨fun _ same => by cases same; rfl, rfl⟩
  | _ => exact ⟨nofun, rfl⟩

/-- Whoever begins an operation takes what it is about from what he owns. -/
theorem Begins.share_eq {owned hand left : List Buffer} {call : Call}
    (begins : Begins owned call hand left) (slot : Slot) :
    (call.share slot + if slot = .held then left.length else 0) =
      if slot = .held then owned.length else 0 := by
  cases begins with
  | submit buffer front back | giveBack buffer front back =>
    cases slot with
    | held =>
      simp only [Call.share, Call.counted, if_true, List.length_append, List.length_cons]
      omega
    | _ => rfl
  | _ => exact Nat.zero_add _

theorem Begins.tally_eq {owned hand left : List Buffer} {call : Call}
    (begins : Begins owned call hand left) (number : Option Nat) :
    tally number (hand ++ left) = tally number owned := by
  cases begins with
  | submit buffer front back | giveBack buffer front back =>
    simp only [tally_append, tally_cons number buffer back]
    omega
  | _ => rw [List.nil_append]

/-- The buffers that an operation passes on to its next step, to its user, or to nobody. -/
def Progress.passes (pool : Pool) (hand : List Buffer) : Progress → List Buffer
  | .going next => next.handAfter pool hand ++ next.frees hand
  | .answered (.ok answer) => answer.buffers
  | .answered (.error _) => hand

namespace Call

variable {pool after : Pool} {cancelled : Bool} {call : Call} {progress : Progress}
  {hand : List Buffer}

/-- No step adds a buffer or takes one away. -/
theorem Advances.tally_eq (step : Advances pool cancelled call after progress)
    (fits : call.Fits hand) (number : Option Nat) :
    tally number (after.queued .empty) + (tally number (after.queued .full) +
      tally number (progress.passes pool hand)) =
    tally number (pool.queued .empty) + (tally number (pool.queued .full) +
      tally number hand) := by
  have empty (none : call.counted = none) : hand = [] := by
    refine List.length_eq_zero_iff.mp ?_
    rw [fits.length, none]
    rfl
  cases step with
  | acquireStopped | acquireReady | fetchStopped | fetchReady | signalTwice | signalEnd
  | noRoomForEnd | drainDone =>
    obtain rfl := empty rfl
    rfl
  | acquired | submitLate | submit | countFull | submitReady | fetched | giveBack | giveBackReady =>
    obtain rfl := fits.named _ rfl
    rfl
  | recountHeld | reclaimHeld => rfl
  | submitStopped | giveBackStopped =>
    simp only [Progress.passes, handAfter, frees, List.append_nil]
  | drained =>
    simp only [Progress.passes, handAfter, frees, buffer?, Option.toList, List.nil_append]
    rfl
  | @acquireFirst buffer rest first =>
    obtain rfl := empty rfl
    have all := tally_cons number buffer rest
    rw [← first] at all
    simp only [queued, Progress.passes, handAfter, buffer?, frees, Option.toList, List.append_nil,
      tally_nil]
    omega
  | @drainFirst _ buffer rest first =>
    obtain rfl := empty rfl
    have all := tally_cons number buffer rest
    simp only [queued, Progress.passes, handAfter, frees, first, List.take, List.append_nil,
      tally_nil]
    omega
  | submitted buffer =>
    obtain rfl := fits.named _ rfl
    simp only [queued, Progress.passes, Answer.buffers, List.flatMap_append, List.flatMap_singleton,
      FullItem.buffers, tally_append, tally_nil]
    omega
  | givenBack buffer =>
    obtain rfl := fits.named _ rfl
    simp only [queued, Progress.passes, Answer.buffers, tally_append, tally_nil]
    omega
  | @fetchFirst buffer rest first =>
    obtain rfl := empty rfl
    simp only [queued, Progress.passes, handAfter, buffer?, frees, Option.toList, List.append_nil,
      first, List.flatMap_cons, FullItem.buffers, tally_append, tally_nil]
    omega
  | fetchEnd first =>
    obtain rfl := empty rfl
    simp only [queued, Progress.passes, Answer.buffers, first, List.flatMap_cons, FullItem.buffers,
      List.nil_append, tally_nil]
  | placeEnd =>
    obtain rfl := empty rfl
    simp only [queued, Progress.passes, Answer.buffers, List.flatMap_append, List.flatMap_singleton,
      FullItem.buffers, List.append_nil, tally_nil]

/-- What an operation that goes on leaves in a place other than the queues is what it has
released. -/
theorem Advances.settles_going {next : Call} (step : Advances pool cancelled call after (.going next))
    (fits : call.Fits hand) (slot : Slot) :
    call.settles (.going next) slot = if slot = .released then (next.frees hand).length else 0 := by
  cases step with
  | drained =>
    cases slot with
    | released => exact fits.length.symm
    | _ => rfl
  | _ => cases slot <;> rfl

/-- What an operation that fails leaves in a place other than the queues is counted as held. -/
theorem Fits.settles_failed (fits : call.Fits hand) (cause : Error) (slot : Slot) :
    call.settles (.answered (.error cause)) slot = if slot = .held then hand.length else 0 := by
  cases slot with
  | held => exact fits.length.symm
  | _ => rfl

end Call

/-! ## All operations -/

/-- The user has in hand what his operation is about. -/
def User.Fits (user : User) : Prop :=
  match user.call with
  | some call => call.Fits user.hand
  | none => user.hand = []

/-- What a user adds to what is counted as being in a place. -/
def User.share (user : User) (slot : Slot) : Nat :=
  (user.call.elim 0 fun call => call.share slot) + if slot = .held then user.owned.length else 0

/-- What a user has in hand is what his operation adds to the counts. -/
theorem User.Fits.share_eq {user : User} (fits : user.Fits) (slot : Slot) :
    (user.call.elim 0 fun call => call.share slot) =
      if user.call.bind Call.counted = some slot then user.hand.length else 0 := by
  rw [Fits] at fits
  cases busy : user.call with
  | none => rfl
  | some call =>
    rw [busy] at fits
    rw [Option.elim, Call.share, Option.bind_some]
    by_cases counted : call.counted = some slot
    · rw [if_pos counted, if_pos counted, fits.length, counted]
      rfl
    · rw [if_neg counted, if_neg counted]

namespace Scene

/-- The buffers in a place where nobody has them any more. -/
def cast (scene : Scene) : Slot → List Buffer
  | .held => scene.lost
  | .released => scene.freed
  | _ => []

/-- The buffers of the pool are all there, and the counts are right. -/
structure Conserves (size : Nat) (scene : Scene) : Prop where
  isOpen : scene.pool.IsOpen
  fits : ∀ user ∈ scene.users, user.Fits
  sized : scene.pool.size = size
  sum : scene.pool.counts.total = size
  exact : ∀ slot, scene.pool.CountsExactly slot
    (total (scene.users.map fun user => user.share slot) + (scene.cast slot).length)
  once : ∀ number, tally number (scene.pool.queued .empty) +
    (tally number (scene.pool.queued .full) + (tally number scene.lost + (tally number scene.freed +
      total (scene.users.map fun user => tally number (user.hand ++ user.owned))))) =
    ((List.range size).map some).count number

variable {size : Nat} {scene after : Scene} {index : Nat} {user other : User}

/-- One user goes on. -/
theorem Conserves.exchange (conserves : scene.Conserves size)
    (here : scene.users[index]? = some user) (users : after.users = scene.users.set index other)
    (isOpen : after.pool.IsOpen) (fits : other.Fits) (same : after.pool.size = scene.pool.size)
    (sum : after.pool.counts.total = scene.pool.counts.total)
    (exact : ∀ slot others,
      scene.pool.CountsExactly slot (user.share slot + ((scene.cast slot).length + others)) →
      after.pool.CountsExactly slot (other.share slot + ((after.cast slot).length + others)))
    (once : ∀ number, tally number (after.pool.queued .empty) +
        (tally number (after.pool.queued .full) + (tally number after.lost +
          (tally number after.freed + tally number (other.hand ++ other.owned)))) =
      tally number (scene.pool.queued .empty) +
        (tally number (scene.pool.queued .full) + (tally number scene.lost +
          (tally number scene.freed + tally number (user.hand ++ user.owned))))) :
    after.Conserves size := by
  refine ⟨isOpen, ?_, same.trans conserves.sized, sum.trans conserves.sum, fun slot => ?_,
    fun number => ?_⟩
  · rw [users]
    exact forall_mem_set fits conserves.fits
  · have exchanged := total_map_set (f := fun user => user.share slot) other here
    have mine : user.share slot ≤ total (scene.users.map fun user => user.share slot) :=
      le_total_of_mem (f := fun user => user.share slot) (List.mem_of_getElem? here)
    have before := conserves.exact slot
    have later := exact slot
      (total (scene.users.map fun user => user.share slot) - user.share slot)
    unfold CountsExactly at *
    rw [users]
    omega
  · have exchanged := total_map_set (f := fun user => tally number (user.hand ++ user.owned)) other
      here
    have before := conserves.once number
    have here := once number
    rw [users]
    omega

/-- What an operation is counted as is there to be counted. -/
theorem Conserves.covered (conserves : scene.Conserves size) (member : user ∈ scene.users)
    {call : Call} (busy : user.call = some call) (slot : Slot) :
    call.share slot ≤ scene.pool.counts.get slot := by
  have mine : user.share slot ≤ total (scene.users.map fun user => user.share slot) :=
    le_total_of_mem (f := fun user => user.share slot) member
  have exact := conserves.exact slot
  rw [CountsExactly] at exact
  have own : user.share slot = call.share slot + if slot = .held then user.owned.length else 0 := by
    rw [User.share, busy, Option.elim]
  omega

variable {call : Call} {pool : Pool} {cancelled : Bool} {side : Side} {progress : Progress}

/-- What a busy user can do next, and what he has in hand. -/
theorem Conserves.advances (conserves : scene.Conserves size)
    (here : scene.users[index]? = some user) (busy : user.call = some call)
    (step : call.advance scene.pool cancelled side = some (pool, progress)) :
    Call.Advances scene.pool cancelled call pool progress ∧ call.Fits user.hand := by
  have fits := conserves.fits user (List.mem_of_getElem? here)
  rw [User.Fits, busy] at fits
  exact ⟨Call.advances_of_advance conserves.isOpen step, fits⟩

/-- A busy user takes a step of his operation. -/
theorem Conserves.advance (conserves : scene.Conserves size)
    (here : scene.users[index]? = some user) (busy : user.call = some call)
    (step : Call.Advances scene.pool cancelled call after.pool progress)
    (hand : call.Fits user.hand) (users : after.users = scene.users.set index other)
    (fits : other.Fits)
    (settled : ∀ slot, other.share slot + (after.cast slot).length =
      progress.share slot + (call.settles progress slot +
        ((if slot = .held then user.owned.length else 0) + (scene.cast slot).length)))
    (passed : ∀ number, tally number after.lost + (tally number after.freed +
        tally number (other.hand ++ other.owned)) =
      tally number (progress.passes scene.pool user.hand) + (tally number scene.lost +
        (tally number scene.freed + tally number user.owned))) :
    after.Conserves size := by
  refine conserves.exchange here users (step.isOpen conserves.isOpen) fits step.size_eq
    (step.total_eq (conserves.covered (List.mem_of_getElem? here) busy)) (fun slot others exact => ?_)
    fun number => ?_
  · rw [User.share, busy, Option.elim, Nat.add_assoc] at exact
    have later := step.exact slot exact
    have same := settled slot
    unfold CountsExactly at *
    omega
  · have queues := step.tally_eq hand number
    have same := passed number
    rw [tally_append number user.hand]
    omega

/-- Whatever happens next, the buffers stay all there and the counts right. -/
theorem Conserves.step (conserves : scene.Conserves size) (step : scene.Step after) :
    after.Conserves size := by
  cases step with
  | @begins index user call hand owned here idle begins =>
    have empty := conserves.fits user (List.mem_of_getElem? here)
    simp only [User.Fits, idle] at empty
    refine conserves.exchange here rfl conserves.isOpen begins.fits rfl rfl
      (fun slot others exact => ?_) fun number => ?_
    · have same := begins.share_eq slot
      simp only [User.share, idle, Option.elim] at exact ⊢
      rw [same, ← Nat.zero_add (ite _ _ _)]
      exact exact
    · rw [begins.tally_eq, empty, List.nil_append]
  | @goesOn index user call next cancelled side pool here busy step =>
    obtain ⟨step, fits⟩ := conserves.advances here busy step
    refine conserves.advance here busy step fits rfl (step.fits fits) (fun slot => ?_) fun number => ?_
    · rw [step.settles_going fits]
      cases slot with
      | released =>
        simp only [User.share, Progress.share, cast, Option.elim, if_true, List.length_append]
        omega
      | _ => exact Nat.add_assoc _ _ _ |>.trans (congrArg _ (Nat.zero_add _).symm)
    · simp only [Progress.passes, tally_append]
      omega
  | @answered index user call answer cancelled side pool here busy step =>
    obtain ⟨step, fits⟩ := conserves.advances here busy step
    refine conserves.advance here busy step fits rfl rfl (fun slot => ?_) fun number => ?_
    · rw [Call.settles_answered]
      cases slot with
      | held =>
        simp only [User.share, Progress.share, cast, Option.elim, if_true, List.length_append]
        omega
      | _ =>
        simp only [User.share, Progress.share, cast, Option.elim, reduceCtorEq, if_false,
          Nat.zero_add]
    · simp only [Progress.passes, tally_append, tally_nil]
      omega
  | @failed index user call cause cancelled side pool here busy step =>
    obtain ⟨step, fits⟩ := conserves.advances here busy step
    refine conserves.advance here busy step fits rfl rfl (fun slot => ?_) fun number => ?_
    · rw [fits.settles_failed]
      cases slot with
      | held =>
        simp only [User.share, Progress.share, cast, Option.elim, if_true, List.length_append]
        omega
      | _ =>
        simp only [User.share, Progress.share, cast, Option.elim, reduceCtorEq, if_false,
          Nat.zero_add]
    · simp only [Progress.passes, tally_append, tally_nil]
      omega
  | @drops index user buffer front back here owned =>
    refine conserves.exchange here rfl conserves.isOpen
      (conserves.fits user (List.mem_of_getElem? here)) rfl rfl (fun slot others exact => ?_)
      fun number => ?_
    · unfold CountsExactly at *
      cases slot with
      | held =>
        simp only [User.share, owned, cast, if_true, List.length_append, List.length_cons,
          List.length_nil] at exact ⊢
        omega
      | _ => exact exact
    · simp only [owned, tally_append, tally_cons number buffer back]
      omega
  | @fills index user buffer front back batch here owned =>
    refine conserves.exchange here rfl conserves.isOpen
      (conserves.fits user (List.mem_of_getElem? here)) rfl rfl (fun slot others exact => ?_)
      fun number => ?_
    · simp only [User.share, owned, List.length_append, List.length_cons] at exact ⊢
      exact exact
    · simp only [owned, tally_append]
      rfl

theorem conserves_start (size capacity maxEntries users : Nat) :
    (start size capacity maxEntries users).Conserves size := by
  have idle (f : User → Nat) (none : f {} = 0) :
      total ((start size capacity maxEntries users).users.map f) = 0 := by
    refine total_eq_zero fun user member => ?_
    obtain rfl := List.eq_of_mem_replicate member
    exact none
  have numbers : (create size capacity maxEntries).empties.items.map Buffer.number =
      (List.range size).map some := List.map_map
  refine ⟨⟨nofun, nofun, nofun, nofun⟩, fun user member => ?_, rfl, rfl, fun slot => ?_,
    fun number => ?_⟩
  · obtain rfl := List.eq_of_mem_replicate member
    rfl
  · rw [idle]
    · cases slot with
      | empty => exact ((List.length_map _).trans List.length_range).symm
      | _ => rfl
    · cases slot <;> rfl
  · rw [idle _ rfl, ← numbers]
    rfl

/-- Whatever any number of users do, the buffers stay all there and the counts right. -/
theorem Reaches.conserves {capacity maxEntries users : Nat}
    (reached : Reaches size capacity maxEntries users scene) : scene.Conserves size := by
  induction reached with
  | refl => exact conserves_start size capacity maxEntries users
  | tail _ step conserves => exact conserves.step step

/-! ## What is where -/

/-- What users have in hand is what their operations add to the counts. -/
theorem length_moving {users : List User} (fits : ∀ user ∈ users, user.Fits) (slot : Slot) :
    ((users.filter fun user => user.call.bind Call.counted = some slot).flatMap User.hand).length =
      total (users.map fun user => user.call.elim 0 fun call => call.share slot) := by
  induction users with
  | nil => rfl
  | cons user rest ih =>
    obtain ⟨here, later⟩ := List.forall_mem_cons.mp fits
    have mine := here.share_eq slot
    rw [List.map_cons, total_cons, ← ih later, mine, List.filter_cons]
    by_cases counted : user.call.bind Call.counted = some slot
    · simp only [counted, decide_true, if_true, List.flatMap_cons, List.length_append]
    · simp only [counted, decide_false, Bool.false_eq_true, if_false, Nat.zero_add]

/-- The counts are exact but for what is on its way. -/
theorem Conserves.get_eq (conserves : scene.Conserves size) (slot : Slot) :
    scene.pool.counts.get slot = (scene.present slot).length + (scene.moving slot).length := by
  have counted := conserves.exact slot
  simp only [CountsExactly, User.share, total_map_add] at counted
  rw [moving, length_moving conserves.fits, counted]
  cases slot with
  | held =>
    simp only [present, queued, cast, if_true, List.length_append, length_flatMap, List.length_nil]
    omega
  | _ =>
    simp only [present, queued, cast, reduceCtorEq, if_false, List.length_nil, total_map_const]
    omega

/-- Every buffer of the pool is in one place. -/
theorem Conserves.perm (conserves : scene.Conserves size) :
    (scene.buffers.map Buffer.number).Perm ((List.range size).map some) := by
  refine List.perm_iff_count.mpr fun number => ?_
  have once := conserves.once number
  simp only [tally_append, total_map_add] at once
  refine Eq.trans ?_ once
  show tally number scene.buffers = _
  simp only [buffers, present, tally_append, tally_flatMap]
  omega

/-- No count of zero is ever taken from. -/
theorem Conserves.advance_counts (conserves : scene.Conserves size)
    (here : scene.users[index]? = some user) (busy : user.call = some call)
    (step : call.advance scene.pool cancelled side = some (pool, progress)) :
    pool.counts = scene.pool.counts ∨ ∃ source target, source ≠ target ∧
      0 < scene.pool.counts.get source ∧ pool.counts = scene.pool.counts.transfer source target := by
  obtain ⟨step, -⟩ := conserves.advances here busy step
  refine step.moves_count.imp_right ?_
  rintro ⟨source, target, counted, differ, moved⟩
  have covered := conserves.covered (List.mem_of_getElem? here) busy source
  rw [Call.share, if_pos counted] at covered
  exact ⟨source, target, differ, covered, moved⟩

end Scene

end TreeExport.Pool

import TreeExport.Proofs.Pool.Calls

/-!
# What a pool counts

While an operation stands between the move of a count and the move of a buffer, the counts of a pool
run ahead of its queues or behind them.  `Call.counted` is the place as which the buffer of an
operation is counted; with these the counts are exact, and every step keeps them so
(`Call.Advances.exact`).  So no count is ever moved that is zero, and their sum stays as it is
(`Call.Advances.total_eq`).
-/

namespace TreeExport

/-- The buffer that sort-and-store receives, if it is not the end of input. -/
def FullItem.buffers : FullItem → List Buffer
  | .buffer full => [full]
  | .endOfInput => []

namespace Pool

/-- The buffer in an answer. -/
def Answer.buffers : Answer → List Buffer
  | .buffer empty => [empty]
  | .item received => received.buffers
  | _ => []

/-! ## Counts -/

namespace Counts

variable {counts : Counts} {source target slot : Slot}

theorem get_set (counts : Counts) (source slot : Slot) (n : Nat) :
    (counts.set source n).get slot = if slot = source then n else counts.get slot := by
  cases source <;> cases slot <;> rfl

theorem get_transfer_source (differ : source ≠ target) :
    (counts.transfer source target).get source = counts.get source - 1 := by
  simp only [transfer, get_set, differ, if_false, if_true]

theorem get_transfer_target (differ : source ≠ target) :
    (counts.transfer source target).get target = counts.get target + 1 := by
  simp only [transfer, get_set, differ.symm, if_false, if_true]

theorem get_transfer_other (notSource : slot ≠ source) (notTarget : slot ≠ target) :
    (counts.transfer source target).get slot = counts.get slot := by
  simp only [transfer, get_set, notSource, notTarget, if_false]

/-- A transfer out of a place that is counted as having something keeps the sum. -/
theorem total_transfer (differ : source ≠ target) (positive : 0 < counts.get source) :
    (counts.transfer source target).total = counts.total := by
  cases source <;> cases target <;> first
    | exact absurd rfl differ
    | (simp only [get] at positive
       simp only [total, transfer, set, get]
       omega)

end Counts

/-! ## Operations -/

/-- The buffers in the queue that goes with a place. -/
def queued (pool : Pool) : Slot → List Buffer
  | .empty => pool.empties.items
  | .full => pool.fulls.items.flatMap FullItem.buffers
  | _ => []

@[simp] theorem queued_transfer (pool : Pool) (source target slot : Slot) :
    (pool.transfer source target).queued slot = pool.queued slot := by
  cases slot <;> rfl

namespace Call

/-- The place as which the buffer of an operation is counted, if there is one.  A buffer that was
not handed on is counted until its count is moved back, and one that is released until its count is
moved. -/
def counted : Call → Option Slot
  | tookEmpty _ => some .empty
  | submit _ => some .held
  | countFull _ => some .held
  | offerFull _ _ => some .full
  | recountHeld _ => some .full
  | tookFull _ => some .full
  | giveBack _ => some .held
  | offerEmpty _ _ => some .empty
  | reclaimHeld _ => some .empty
  | drained _ => some .empty
  | _ => none

/-- What an operation adds to what is counted as being in a place. -/
def share (call : Call) (slot : Slot) : Nat :=
  if call.counted = some slot then 1 else 0

/-- What an operation leaves in a place other than the queues: a buffer that it answers with is held,
one that it fails with is lost and counted as held, and one that it has drained is released. -/
def settles (call : Call) (progress : Progress) (slot : Slot) : Nat :=
  match progress, slot with
  | .answered (.ok (.buffer _)), .held => 1
  | .answered (.ok (.item (.buffer _))), .held => 1
  | .answered (.error _), .held => if call.counted.isSome then 1 else 0
  | .going (.drain _), .released => 1
  | _, _ => 0

end Call

/-- What an operation that goes on adds to what is counted as being in a place. -/
def Progress.share : Progress → Slot → Nat
  | .going call, slot => call.share slot
  | .answered _, _ => 0

/-- As many are counted as being in a place as are in its queue and `others`. -/
def CountsExactly (pool : Pool) (slot : Slot) (others : Nat) : Prop :=
  pool.counts.get slot = (pool.queued slot).length + others

/-- Somebody who stood for `share` of what is counted stands for `shareAfter` of it and has left
`aside` in places other than the queues. -/
structure Recounts (pool : Pool) (share : Slot → Nat) (after : Pool)
    (shareAfter aside : Slot → Nat) : Prop where
  exact : ∀ slot others, pool.CountsExactly slot (share slot + others) →
    after.CountsExactly slot (shareAfter slot + (aside slot + others))
  total : (∀ slot, share slot ≤ pool.counts.get slot) → after.counts.total = pool.counts.total
  size : after.size = pool.size

/-- Somebody who does nothing with the pool. -/
theorem Recounts.of_same {pool : Pool} {share shareAfter aside : Slot → Nat}
    (same : ∀ slot, shareAfter slot + aside slot = share slot) :
    pool.Recounts share pool shareAfter aside := by
  refine ⟨fun slot others counted => ?_, fun _ => rfl, rfl⟩
  rw [← Nat.add_assoc, same]
  exact counted

/-- What is neither in the queues nor on its way: so many lost buffers, which count as held, and so
many released ones. -/
def aside (lost freed : Nat) : Slot → Nat
  | .held => lost
  | .released => freed
  | _ => 0

/-- Somebody goes on with a pool and releases nothing, and as long as he is well he loses nothing. -/
def Keeps (pool : Pool) (share : Slot → Nat) (after : Pool) (shareAfter : Slot → Nat)
    (well : Prop) : Prop :=
  ∃ lost, pool.Recounts share after shareAfter (aside lost 0) ∧ (well → lost = 0)

theorem Keeps.of_same {pool : Pool} {share shareAfter : Slot → Nat} {well : Prop}
    (same : ∀ slot, shareAfter slot = share slot) : pool.Keeps share pool shareAfter well := by
  refine ⟨0, .of_same fun slot => ?_, fun _ => rfl⟩
  rw [same]
  cases slot <;> rfl

/-- Somebody who fails loses what he held. -/
theorem Keeps.of_lost {pool : Pool} {share shareAfter : Slot → Nat} {well : Prop} (lost : Nat)
    (held : ∀ slot, share slot = if slot = .held then lost else 0)
    (none : ∀ slot, shareAfter slot = 0) (failed : ¬ well) :
    pool.Keeps share pool shareAfter well := by
  refine ⟨lost, .of_same fun slot => ?_, fun still => absurd still failed⟩
  rw [held, none, Nat.zero_add]
  cases slot <;> rfl

/-- Moving a count from one place to another. -/
theorem CountsExactly.transfer {pool : Pool} {source target slot : Slot} {others : Nat}
    (differ : source ≠ target)
    (exact : pool.CountsExactly slot ((if source = slot then 1 else 0) + others)) :
    (pool.transfer source target).CountsExactly slot
      ((if target = slot then 1 else 0) + others) := by
  unfold CountsExactly at *
  rw [queued_transfer, Pool.transfer]
  by_cases isSource : source = slot
  · subst isSource
    rw [Counts.get_transfer_source differ, exact, if_pos rfl, if_neg differ.symm]
    omega
  · by_cases isTarget : target = slot
    · subst isTarget
      rw [Counts.get_transfer_target differ, exact, if_pos rfl, if_neg isSource]
      omega
    · rw [Counts.get_transfer_other (Ne.symm isSource) (Ne.symm isTarget), exact, if_neg isSource,
        if_neg isTarget]

namespace Call

variable {pool after : Pool} {cancelled : Bool} {call : Call} {progress : Progress}

/-- The counts stay exact, place by place. -/
theorem Advances.exact (step : Advances pool cancelled call after progress) (slot : Slot)
    {others : Nat} (exact : pool.CountsExactly slot (call.share slot + others)) :
    after.CountsExactly slot (progress.share slot + (call.settles progress slot + others)) := by
  have moved {source target : Slot} (differ : source ≠ target) (counted : call.counted = some source)
      (gets : ∀ slot, progress.share slot + call.settles progress slot =
        if target = slot then 1 else 0) :
      (pool.transfer source target).CountsExactly slot
        (progress.share slot + (call.settles progress slot + others)) := by
    rw [← Nat.add_assoc, gets]
    refine CountsExactly.transfer differ ?_
    simpa only [share, counted, Option.some.injEq] using exact
  have kept (counts : after.counts = pool.counts) (sum : ∀ slot, (after.queued slot).length +
      (progress.share slot + call.settles progress slot) =
        (pool.queued slot).length + call.share slot) :
      after.CountsExactly slot (progress.share slot + (call.settles progress slot + others)) := by
    unfold CountsExactly at *
    rw [counts, exact]
    have := sum slot
    omega
  cases step with
  | acquired | countFull | recountHeld | fetched | giveBack | reclaimHeld | drained =>
    exact moved (by decide) rfl (by intro slot; cases slot <;> rfl)
  | acquireFirst first | drainFirst first =>
    refine kept rfl fun slot => ?_
    cases slot with
    | empty =>
      simp only [queued, first]
      rfl
    | _ => rfl
  | fetchFirst first =>
    refine kept rfl fun slot => ?_
    cases slot with
    | full =>
      simp only [queued, first, List.flatMap_cons, FullItem.buffers, List.singleton_append,
        List.length_cons]
      rfl
    | _ => rfl
  | fetchEnd first =>
    refine kept rfl fun slot => ?_
    cases slot with
    | full =>
      simp only [queued, first, List.flatMap_cons, FullItem.buffers, List.nil_append]
      rfl
    | _ => rfl
  | submitted | placeEnd =>
    refine kept rfl fun slot => ?_
    cases slot with
    | full =>
      simp only [queued, List.flatMap_append, List.flatMap_singleton, FullItem.buffers,
        List.length_append]
      rfl
    | _ => rfl
  | givenBack =>
    refine kept rfl fun slot => ?_
    cases slot with
    | empty =>
      simp only [queued, List.length_append]
      rfl
    | _ => rfl
  | _ => exact kept rfl fun slot => by cases slot <;> rfl

/-- A step moves no count, or one from the place as which the buffer of its operation is counted. -/
theorem Advances.moves_count (step : Advances pool cancelled call after progress) :
    after.counts = pool.counts ∨ ∃ source target, call.counted = some source ∧ source ≠ target ∧
      after.counts = pool.counts.transfer source target := by
  have moved {source target : Slot} (same : after = pool.transfer source target)
      (counted : call.counted = some source) (differ : source ≠ target) :
      after.counts = pool.counts ∨ ∃ source target, call.counted = some source ∧
        source ≠ target ∧ after.counts = pool.counts.transfer source target :=
    .inr ⟨source, target, counted, differ, congrArg Pool.counts same⟩
  cases step with
  | acquired | countFull | recountHeld | fetched | giveBack | reclaimHeld | drained =>
    exact moved rfl rfl (by decide)
  | _ => exact .inl rfl

/-- The counts add up to what they did before. -/
theorem Advances.total_eq (step : Advances pool cancelled call after progress)
    (covered : ∀ slot, call.share slot ≤ pool.counts.get slot) :
    after.counts.total = pool.counts.total := by
  rcases step.moves_count with same | ⟨source, target, counted, differ, moved⟩
  · rw [same]
  · have positive := covered source
    rw [share, counted, if_pos rfl] at positive
    rw [moved, Counts.total_transfer differ positive]

/-- What an operation that is answered leaves in a place other than the queues is held. -/
theorem settles_answered (call : Call) (answer : Answer) (slot : Slot) :
    call.settles (.answered (.ok answer)) slot =
      if slot = .held then answer.buffers.length else 0 := by
  cases answer with
  | item received => cases received <;> cases slot <;> rfl
  | _ => cases slot <;> rfl

theorem settles_going {next : Call} (kind : next.kind ≠ .drain) (slot : Slot) :
    call.settles (.going next) slot = 0 := by
  cases next with
  | drain => exact absurd rfl kind
  | _ => cases slot <;> rfl

theorem Advances.size_eq (step : Advances pool cancelled call after progress) :
    after.size = pool.size := by
  cases step <;> rfl

/-- An operation recounts what it stands for. -/
theorem Advances.recounts (step : Advances pool cancelled call after progress)
    {share aside : Slot → Nat} (same : ∀ slot, share slot + aside slot =
      progress.share slot + call.settles progress slot) :
    pool.Recounts call.share after share aside := by
  refine ⟨fun slot others counted => ?_, step.total_eq, step.size_eq⟩
  rw [← Nat.add_assoc, same, Nat.add_assoc]
  exact step.exact slot counted

theorem Advances.keeps_going {next : Call} {well : Prop}
    (step : Advances pool cancelled call after (.going next)) (kind : call.kind ≠ .drain) :
    pool.Keeps call.share after next.share well := by
  refine ⟨0, step.recounts fun slot => ?_, fun _ => rfl⟩
  rw [settles_going (step.kind_eq ▸ kind)]
  cases slot <;> rfl

theorem Advances.keeps_answered {answer : Answer} {share : Slot → Nat} {well : Prop}
    (step : Advances pool cancelled call after (.answered (.ok answer)))
    (same : ∀ slot, share slot = if slot = .held then answer.buffers.length else 0) :
    pool.Keeps call.share after share well := by
  refine ⟨0, step.recounts fun slot => ?_, fun _ => rfl⟩
  rw [same, settles_answered]
  cases slot <;> exact Nat.add_comm _ _

theorem Advances.keeps_failed {cause : Error} {share : Slot → Nat} {well : Prop}
    (step : Advances pool cancelled call after (.answered (.error cause)))
    (none : ∀ slot, share slot = 0) (failed : ¬ well) : pool.Keeps call.share after share well := by
  refine ⟨if call.counted.isSome then 1 else 0, step.recounts fun slot => ?_,
    fun still => absurd still failed⟩
  rw [none]
  cases slot <;> rfl

end Call

end Pool

end TreeExport

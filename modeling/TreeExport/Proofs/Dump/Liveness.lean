import TreeExport.Proofs.Dump.Progress
import TreeExport.Proofs.Dump.Turns
import TreeExport.Proofs.Dump.Work

/-!
# Every run goes on and comes to an end

As long as no stage has failed somebody can take a step, until the coordinator returns; and every
step takes from the work that is left, so there are no more steps than there is work
(`Job.Reaches.goes_on_and_ends`).  A queue is never found full by one who hands on a buffer or a
marker (`Dump.Stocking.offers`, `Dump.Relaying.items_eq_nil`), and whoever waits for an empty buffer
is served.
-/

namespace TreeExport

/-! ## Room for what is offered -/

/-- The queue that an operation is about to put something into has room for it. -/
def Pool.HasRoomFor (pool : Pool) : Pool.Call → Prop
  | .offerFull _ _ => pool.fulls.items.length < pool.fulls.capacity
  | .offerEmpty _ _ => pool.empties.items.length < pool.empties.capacity
  | .placeEnd => pool.fulls.items.length < pool.fulls.capacity
  | _ => True

/-- The operation on the pool that the coordinator is at. -/
def Coordinator.call? (coordinator : Coordinator) : Option Pool.Call :=
  match coordinator.phase with
  | .signalling call => some call
  | .draining call => some call
  | _ => none

namespace Dump

variable {σ : Type}

/-- The operations on the pool that the parties to a dump are at. -/
def calls (dump : Dump σ) : List Pool.Call :=
  dump.workers.filterMap Worker.call? ++
    (dump.storer.call?.toList ++ dump.coordinator.call?.toList)

variable {job : Job σ} {dump : Dump σ} {filled : List Buffer} {marks : Nat}

/-- An operation that belongs to a party that holds a buffer finds room for it. -/
theorem Stocking.hasRoomFor (stocking : dump.Stocking job filled marks) {call : Pool.Call}
    (kind : call.kind ≠ .signal) (held : call.held ≤ dump.held) :
    dump.shared.pool.HasRoomFor call := by
  cases call with
  | offerFull buffer attempt => exact (stocking.room held).2
  | offerEmpty buffer attempt => exact (stocking.room held).1
  | placeEnd => exact absurd rfl kind
  | _ => trivial

/-- What is offered to the pool, by whomever, finds room. -/
theorem Stocking.offers (stocking : dump.Stocking job filled marks) (signals : dump.Signals marks)
    (ends : dump.Ends job) : ∀ call ∈ dump.calls, dump.shared.pool.HasRoomFor call := by
  intro call member
  rcases List.mem_append.mp member with worker | other
  · obtain ⟨worker, here, busy⟩ := List.mem_filterMap.mp worker
    have shaped := ends.shaped worker here
    have mine : worker.held ≤ total (dump.workers.map Worker.held) := le_total_of_mem here
    have within : worker.held ≤ dump.held := by
      rw [Dump.held]
      omega
    unfold Worker.call? at busy
    split at busy
    · next phase =>
      cases busy
      simp only [Worker.IsShaped, phase] at shaped
      simp only [Worker.held, phase] at within
      exact stocking.hasRoomFor (by rw [shaped.1]; decide) within
    · next phase =>
      cases busy
      simp only [Worker.IsShaped, phase] at shaped
      simp only [Worker.held, phase] at within
      exact stocking.hasRoomFor (by rw [shaped.1]; decide) within
    · next phase =>
      cases busy
      simp only [Worker.IsShaped, phase] at shaped
      simp only [Worker.held, phase] at within
      refine stocking.hasRoomFor ?_ within
      rcases shaped.1 with kind | kind <;> rw [kind] <;> decide
    · cases busy
  rcases List.mem_append.mp other with storer | coordinator
  · have shaped := ends.storer
    have busy := Option.mem_toList.mp storer
    have within : dump.storer.held ≤ dump.held := by
      rw [Dump.held]
      omega
    unfold Storer.call? at busy
    split at busy
    · next phase =>
      cases busy
      simp only [Storer.IsShaped, phase] at shaped
      simp only [Storer.held, phase] at within
      exact stocking.hasRoomFor (by rw [shaped]; decide) within
    · next phase =>
      cases busy
      simp only [Storer.IsShaped, phase] at shaped
      simp only [Storer.held, phase] at within
      exact stocking.hasRoomFor (by rw [shaped]; decide) within
    · cases busy
  · have shaped := ends.coordinator
    have busy := Option.mem_toList.mp coordinator
    unfold Coordinator.call? at busy
    split at busy
    · next phase =>
      cases busy
      simp only [Coordinator.IsShaped, phase] at shaped
      cases call with
      | signalEnd => trivial
      | placeEnd =>
        simp only [Signals, phase] at signals
        have room := stocking.length_le
        simp only [Pool.HasRoomFor, stocking.capacity.2]
        omega
      | _ => cases shaped
    · next phase =>
      cases busy
      simp only [Coordinator.IsShaped, phase] at shaped
      cases call with
      | drain => trivial
      | drained => trivial
      | _ => cases shaped
    · cases busy

end Dump

/-! ## Every run -/

variable {σ : Type} [RecordSource σ]

end TreeExport

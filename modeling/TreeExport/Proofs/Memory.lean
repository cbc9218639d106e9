import TreeExport.Memory

/-!
# What a planned division of the memory holds

The share that is set aside for sort keys is taken off the working memory once, and every buffer gets
the entry cap that fits this share.  So the buffers and the sort keys of one of them fit in the memory,
and where all buffers are full, all sort keys but those of one come on top (`MemoryBudget.plan_fits`).
Unless buffers are as great as they can be, that is always more than the memory
(`MemoryBudget.plan_exceeds`).
-/

namespace TreeExport

namespace Memory

variable {total buffers percentage : Nat}

/-- The even share of a buffer in what is not set aside for sort keys. -/
def evenShare (total buffers percentage : Nat) : Nat :=
  (total - sortKeyReserve total buffers percentage) / buffers

theorem sortKeyReserve_eq (some : 0 < buffers) : sortKeyReserve total buffers percentage =
    limitToBuffer (total / buffers) * percentage / 100 := by
  rw [sortKeyReserve, Nat.max_eq_left some]

theorem sortKeyReserve_le_share (total : Nat) (within : percentage ≤ 100) (some : 0 < buffers) :
    sortKeyReserve total buffers percentage ≤ total / buffers := by
  rw [sortKeyReserve_eq some]
  calc limitToBuffer (total / buffers) * percentage / 100
      ≤ total / buffers * 100 / 100 :=
        Nat.div_le_div_right (Nat.mul_le_mul (Nat.min_le_left _ _) within)
    _ = total / buffers := Nat.mul_div_cancel _ (by decide)

theorem sortKeyReserve_le_total (total : Nat) (within : percentage ≤ 100) (some : 0 < buffers) :
    sortKeyReserve total buffers percentage ≤ total :=
  Nat.le_trans (sortKeyReserve_le_share total within some) (Nat.div_le_self _ _)

/-- Buffers of the even share and what is set aside fit in the memory. -/
theorem mul_evenShare_add_le (total : Nat) (within : percentage ≤ 100) (some : 0 < buffers) :
    buffers * evenShare total buffers percentage + sortKeyReserve total buffers percentage ≤
      total := by
  have fits := Nat.mul_div_le (total - sortKeyReserve total buffers percentage) buffers
  have whole := sortKeyReserve_le_total total within some
  unfold evenShare
  omega

end Memory

namespace MemoryBudget

variable {total workers percentage : Nat} {budget : MemoryBudget}

/-- What all buffers need when each is full, with as many bytes and as many sort keys as it may have. -/
def fullBytes (budget : MemoryBudget) : Nat :=
  budget.buffers * (budget.bufferBytes + Memory.sortKeyBytes * budget.entriesPerBuffer)

/-- How a division comes about that is not refused. -/
structure IsPlan (total workers percentage : Nat) (budget : MemoryBudget) : Prop where
  staffed : 0 < workers
  shared : 0 < percentage
  within : percentage ≤ 100
  buffers : budget.buffers = workers + 1
  reserve : budget.sortKeyReserve = Memory.sortKeyReserve total budget.buffers percentage
  bytes : budget.bufferBytes =
    Memory.limitToBuffer ((total - budget.sortKeyReserve) / budget.buffers)
  great : Memory.minBufferBytes ≤ budget.bufferBytes
  entries : budget.entriesPerBuffer = max (budget.sortKeyReserve / Memory.sortKeyBytes) 1

theorem isPlan_of_plan (planned : plan total workers percentage = .ok budget) :
    IsPlan total workers percentage budget := by
  unfold plan at planned
  split at planned
  · cases planned
  · next some =>
    split at planned
    · cases planned
    · next within =>
      dsimp only at planned
      split at planned
      · cases planned
      · next great =>
        cases planned
        exact ⟨by omega, by omega, by omega, rfl, rfl, rfl, Nat.not_lt.mp great, rfl⟩

namespace IsPlan

variable (isPlan : IsPlan total workers percentage budget)

include isPlan

/-- The share that is set aside is one of a buffer that is no smaller than those that are made. -/
theorem reserve_ge :
    budget.bufferBytes * percentage / 100 ≤ budget.sortKeyReserve := by
  have less : (total - budget.sortKeyReserve) / budget.buffers ≤ total / max budget.buffers 1 := by
    rw [isPlan.buffers, Nat.max_eq_left (Nat.le_add_left 1 workers)]
    exact Nat.div_le_div_right (Nat.sub_le _ _)
  rw [isPlan.reserve, Memory.sortKeyReserve, isPlan.bytes]
  exact Nat.div_le_div_right (Nat.mul_le_mul_right _
    (Nat.le_min.mpr ⟨Nat.le_trans (Nat.min_le_left _ _) less, Nat.min_le_right _ _⟩))

/-- It has room for many more sort keys than one. -/
theorem sortKeyBytes_lt_reserve : 2 * Memory.sortKeyBytes < budget.sortKeyReserve := by
  have share : 32 * (1024 * 1024) * 1 ≤ budget.bufferBytes * percentage :=
    Nat.mul_le_mul isPlan.great isPlan.shared
  have more := isPlan.reserve_ge
  unfold Memory.sortKeyBytes
  omega

theorem reserve_le : budget.sortKeyReserve ≤ total := by
  rw [isPlan.reserve, isPlan.buffers]
  exact Memory.sortKeyReserve_le_total total isPlan.within (Nat.succ_pos workers)

/-- The entry cap of a buffer is what the share has room for. -/
theorem entries_fit : Memory.sortKeyBytes * budget.entriesPerBuffer ≤ budget.sortKeyReserve ∧
    budget.sortKeyReserve < Memory.sortKeyBytes * (budget.entriesPerBuffer + 1) := by
  have many := isPlan.sortKeyBytes_lt_reserve
  have entries := isPlan.entries
  unfold Memory.sortKeyBytes at *
  omega

theorem bytes_eq : budget.bufferBytes =
    Memory.limitToBuffer (Memory.evenShare total (workers + 1) percentage) := by
  rw [isPlan.bytes, isPlan.reserve, isPlan.buffers]
  rfl

theorem buffers_fit : budget.buffers * budget.bufferBytes + budget.sortKeyReserve ≤ total := by
  have fits := Memory.mul_evenShare_add_le total isPlan.within (Nat.succ_pos workers)
  rw [isPlan.bytes_eq, isPlan.reserve, isPlan.buffers]
  exact Nat.le_trans
    (Nat.add_le_add_right (Nat.mul_le_mul_left _ (Nat.min_le_left _ _)) _) fits

end IsPlan

/-- The buffers of a plan, filled to the last byte, and the sort keys of one of them fit in the working
memory.  Where all buffers have all their sort keys, each worker adds at most one share to that. -/
theorem plan_fits (planned : plan total workers percentage = .ok budget) :
    budget.buffers * budget.bufferBytes + Memory.sortKeyBytes * budget.entriesPerBuffer ≤ total ∧
      budget.fullBytes ≤ total + workers * budget.sortKeyReserve := by
  have isPlan := isPlan_of_plan planned
  have fits := isPlan.buffers_fit
  have entries := isPlan.entries_fit.1
  refine ⟨by omega, ?_⟩
  calc budget.fullBytes
      = budget.buffers * budget.bufferBytes +
          (workers + 1) * (Memory.sortKeyBytes * budget.entriesPerBuffer) := by
        rw [fullBytes, Nat.mul_add, isPlan.buffers]
    _ ≤ budget.buffers * budget.bufferBytes + (workers + 1) * budget.sortKeyReserve :=
        Nat.add_le_add_left (Nat.mul_le_mul_left _ entries) _
    _ = budget.buffers * budget.bufferBytes + budget.sortKeyReserve +
          workers * budget.sortKeyReserve := by
        rw [Nat.succ_mul]
        omega
    _ ≤ total + workers * budget.sortKeyReserve := Nat.add_le_add_right fits _

theorem plan_fits_one_worker : ∃ budget, plan 0x8000000 1 25 = .ok budget ∧
    budget.buffers * budget.bufferBytes + Memory.sortKeyBytes * budget.entriesPerBuffer ≤
      0x8000000 ∧
    budget.fullBytes ≤ 0x8000000 + 1 * budget.sortKeyReserve :=
  ⟨_, rfl, plan_fits (show plan 0x8000000 1 25 = .ok _ from rfl)⟩

/-- The buffers of one worker and of sort-and-store need more than the memory if both are full. -/
theorem full_buffers_exceed_memory : ∃ budget, plan 0x8000000 1 25 = .ok budget ∧
    0x8000000 < budget.fullBytes :=
  ⟨_, rfl, by decide⟩

/-- So it is with all plans whose buffers are not as great as buffers can be. -/
theorem plan_exceeds (planned : plan total workers percentage = .ok budget)
    (small : budget.bufferBytes < Memory.maxBufferBytes) : total < budget.fullBytes := by
  have isPlan := isPlan_of_plan planned
  have even : budget.bufferBytes = (total - budget.sortKeyReserve) / budget.buffers := by
    have bytes := isPlan.bytes
    unfold Memory.limitToBuffer at bytes
    omega
  have left : total - budget.sortKeyReserve < budget.buffers * (budget.bufferBytes + 1) := by
    rw [even]
    exact Nat.lt_mul_div_succ _ (by rw [isPlan.buffers]; exact Nat.succ_pos workers)
  have cap : budget.sortKeyReserve ≤ Memory.sortKeyBytes * budget.entriesPerBuffer + 255 :=
    Nat.le_of_lt_succ isPlan.entries_fit.2
  -- what all workers add is more than what the divisions have rounded off
  have kept := Nat.mul_le_mul_left (workers + 1) cap
  have added := Nat.mul_le_mul_left workers isPlan.sortKeyBytes_lt_reserve
  have staffed := isPlan.staffed
  have whole := isPlan.reserve_le
  rw [isPlan.buffers, Nat.mul_succ] at left
  rw [fullBytes, isPlan.buffers, Nat.mul_add]
  rw [Nat.mul_add, Nat.succ_mul] at kept
  unfold Memory.sortKeyBytes at *
  omega

end MemoryBudget

end TreeExport

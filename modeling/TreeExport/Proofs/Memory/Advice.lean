import TreeExport.Proofs.Memory

/-!
# More memory, fewer workers, smaller shares

A refused division comes with an advice: more memory or fewer workers.  Neither makes a division worse
that was not refused, nor does a smaller percentage for sort keys (`MemoryBudget.plan_mono`).  Fewer
workers also have more set aside for sort keys, but no more than the buffers of the workers that are
left out held (`Memory.sortKeyReserve_le_of_fewer`).  There are always two buffers at least; of a single
one, a percentage of 100 would leave nothing.
-/

namespace TreeExport

namespace Memory

variable {total buffers percentage : Nat}

theorem limitToBuffer_mono {size greater : Nat} (less : size ≤ greater) :
    limitToBuffer size ≤ limitToBuffer greater :=
  Nat.le_min.mpr ⟨Nat.le_trans (Nat.min_le_left _ _) less, Nat.min_le_right _ _⟩

/-- A percentage of what a greater size is cut down to is greater by no more than the size is. -/
theorem percentage_le_add {size greater : Nat} (within : percentage ≤ 100) (less : size ≤ greater) :
    limitToBuffer greater * percentage / 100 ≤
      limitToBuffer size * percentage / 100 + (greater - size) := by
  have limited := limitToBuffer_mono less
  have added : limitToBuffer greater - limitToBuffer size ≤ greater - size := by
    unfold limitToBuffer
    omega
  have scaled := Nat.mul_le_mul_left (limitToBuffer greater - limitToBuffer size) within
  have split : limitToBuffer greater * percentage = limitToBuffer size * percentage +
      (limitToBuffer greater - limitToBuffer size) * percentage := by
    rw [← Nat.add_mul, Nat.add_sub_cancel' limited]
  omega

theorem le_evenShare {bytes : Nat} (some : 0 < buffers)
    (fits : buffers * bytes + sortKeyReserve total buffers percentage ≤ total) :
    bytes ≤ evenShare total buffers percentage :=
  (Nat.le_div_iff_mul_le some).mpr (by rw [Nat.mul_comm]; omega)

/-! ## One change at a time -/

theorem sortKeyReserve_le_of_more {more : Nat} (within : percentage ≤ 100) (some : 0 < buffers)
    (less : total ≤ more) : sortKeyReserve more buffers percentage ≤
      sortKeyReserve total buffers percentage + (more - total) := by
  have shares : total / buffers ≤ more / buffers := Nat.div_le_div_right less
  have added : more / buffers - total / buffers ≤ more - total := by
    have bound : more / buffers ≤ total / buffers + (more - total) :=
      calc more / buffers
          ≤ (total + buffers * (more - total)) / buffers := by
            refine Nat.div_le_div_right ?_
            have once := Nat.le_mul_of_pos_left (more - total) some
            omega
        _ = total / buffers + (more - total) := Nat.add_mul_div_left _ _ some
    omega
  have scaled := percentage_le_add within shares
  rw [sortKeyReserve_eq some, sortKeyReserve_eq some]
  omega

/-- More memory leaves no less to a buffer. -/
theorem evenShare_le_of_more {more : Nat} (within : percentage ≤ 100) (some : 0 < buffers)
    (less : total ≤ more) :
    evenShare total buffers percentage ≤ evenShare more buffers percentage := by
  have reserve := sortKeyReserve_le_of_more within some less
  exact Nat.div_le_div_right (by omega)

/-- A smaller percentage for sort keys leaves no less to a buffer. -/
theorem evenShare_le_of_smaller {smaller : Nat} (less : smaller ≤ percentage) :
    evenShare total buffers percentage ≤ evenShare total buffers smaller :=
  Nat.div_le_div_right (Nat.sub_le_sub_left (Nat.div_le_div_right (Nat.mul_le_mul_left _ less)) _)

/-- Two buffers hold more than the share of one in the whole memory, where there are three or more
and they are not tiny. -/
theorem share_lt_two_buffers (within : percentage ≤ 100) (many : 3 ≤ buffers)
    (great : 3 ≤ evenShare total buffers percentage) :
    total / buffers < 2 * evenShare total buffers percentage := by
  have some : 0 < buffers := by omega
  have reserve := sortKeyReserve_le_share total within some
  have whole := Nat.mul_div_le total buffers
  have left : total - sortKeyReserve total buffers percentage <
      buffers * (evenShare total buffers percentage + 1) := Nat.lt_mul_div_succ _ some
  generalize evenShare total buffers percentage = bytes at *
  generalize total / buffers = share at *
  obtain ⟨others, rfl⟩ := Nat.exists_eq_add_of_le many
  -- else the shares of all buffers but one would be more than what is left when one share is set aside
  refine Nat.lt_of_not_le fun twice => ?_
  have shares := Nat.mul_le_mul_left (2 + others) twice
  have rounded := Nat.mul_le_mul_left (1 + others) great
  rw [Nat.mul_left_comm] at shares
  simp only [Nat.add_mul, Nat.mul_add] at *
  omega

/-- What fewer buffers have set aside more is no more than what the others held. -/
theorem sortKeyReserve_le_of_fewer {fewer : Nat} (within : percentage ≤ 100) (two : 2 ≤ fewer)
    (less : fewer ≤ buffers) (great : 3 ≤ evenShare total buffers percentage) :
    sortKeyReserve total fewer percentage ≤ sortKeyReserve total buffers percentage +
      (buffers - fewer) * evenShare total buffers percentage := by
  rcases Nat.eq_or_lt_of_le less with rfl | less
  · omega
  have some : 0 < buffers := by omega
  have doubled := share_lt_two_buffers within (by omega) great
  have whole := Nat.lt_mul_div_succ total some
  rw [sortKeyReserve_eq some, sortKeyReserve_eq (by omega : 0 < fewer)]
  generalize evenShare total buffers percentage = bytes at *
  obtain ⟨others, rfl⟩ := Nat.exists_eq_add_of_le (Nat.le_of_lt less)
  have share : total / fewer ≤ total / (fewer + others) + others * bytes := by
    refine Nat.le_of_lt_succ ((Nat.div_lt_iff_lt_mul (by omega)).mpr ?_)
    generalize total / (fewer + others) = share at *
    have held : others * (share + 1) ≤ others * bytes * fewer :=
      calc others * (share + 1)
          ≤ others * (bytes * 2) := Nat.mul_le_mul_left _ (by omega)
        _ ≤ others * (bytes * fewer) := Nat.mul_le_mul_left _ (Nat.mul_le_mul_left _ two)
        _ = others * bytes * fewer := (Nat.mul_assoc _ _ _).symm
    calc total
        < (fewer + others) * (share + 1) := whole
      _ = (share + 1) * fewer + others * (share + 1) := by rw [Nat.add_mul, Nat.mul_comm fewer]
      _ ≤ (share + 1) * fewer + others * bytes * fewer := Nat.add_le_add_left held _
      _ = (share + others * bytes + 1) * fewer := by
        rw [← Nat.add_mul, Nat.add_right_comm]
  have shares : total / (fewer + others) ≤ total / fewer :=
    Nat.div_le_div_left (Nat.le_add_right _ _) (by omega)
  have scaled := percentage_le_add within shares
  rw [Nat.add_sub_cancel_left]
  omega

/-- Fewer buffers get no less each. -/
theorem evenShare_le_of_fewer {fewer : Nat} (within : percentage ≤ 100) (two : 2 ≤ fewer)
    (less : fewer ≤ buffers) (great : 3 ≤ evenShare total buffers percentage) :
    evenShare total buffers percentage ≤ evenShare total fewer percentage := by
  refine le_evenShare (by omega) ?_
  have fits := mul_evenShare_add_le total within (by omega : 0 < buffers)
  have reserve := sortKeyReserve_le_of_fewer within two less great
  generalize evenShare total buffers percentage = bytes at *
  have split : buffers * bytes = fewer * bytes + (buffers - fewer) * bytes := by
    rw [← Nat.add_mul, Nat.add_sub_cancel' less]
  omega

end Memory

namespace MemoryBudget

variable {total workers percentage : Nat} {budget : MemoryBudget}

/-- A division is not refused just where there are workers, the percentage is one, and the even share
of a buffer is great enough. -/
theorem exists_plan_iff : (∃ budget, plan total workers percentage = .ok budget) ↔
    1 ≤ workers ∧ 1 ≤ percentage ∧ percentage ≤ 100 ∧
      Memory.minBufferBytes ≤ Memory.evenShare total (workers + 1) percentage := by
  have cap : Memory.minBufferBytes ≤ Memory.maxBufferBytes := by decide
  constructor
  · rintro ⟨budget, planned⟩
    have isPlan := isPlan_of_plan planned
    have great := isPlan.great
    rw [isPlan.bytes, isPlan.reserve, isPlan.buffers] at great
    exact ⟨isPlan.staffed, isPlan.shared, isPlan.within, Nat.le_trans great (Nat.min_le_left _ _)⟩
  · rintro ⟨staffed, shared, within, great⟩
    unfold plan
    rw [if_neg (by omega), if_neg (by omega)]
    exact ⟨_, if_neg (Nat.not_lt.mpr (Nat.le_min.mpr ⟨great, cap⟩))⟩

/-- With no less memory, no more workers and no greater percentage a plan stays one, and its buffers
get no smaller. -/
theorem plan_mono {total' workers' percentage' : Nat}
    (planned : plan total workers percentage = .ok budget) (memory : total ≤ total')
    (staffed : 1 ≤ workers') (staff : workers' ≤ workers)
    (shared : 1 ≤ percentage') (share : percentage' ≤ percentage) :
    ∃ budget', plan total' workers' percentage' = .ok budget' ∧
      budget.bufferBytes ≤ budget'.bufferBytes := by
  obtain ⟨-, -, within, great⟩ := exists_plan_iff.mp ⟨budget, planned⟩
  have many : 3 ≤ Memory.evenShare total (workers + 1) percentage :=
    Nat.le_trans (by decide) great
  have mono : Memory.evenShare total (workers + 1) percentage ≤
      Memory.evenShare total' (workers' + 1) percentage' :=
    calc Memory.evenShare total (workers + 1) percentage
        ≤ Memory.evenShare total (workers' + 1) percentage :=
          Memory.evenShare_le_of_fewer within (by omega) (by omega) many
      _ ≤ Memory.evenShare total' (workers' + 1) percentage :=
          Memory.evenShare_le_of_more within (Nat.succ_pos _) memory
      _ ≤ Memory.evenShare total' (workers' + 1) percentage' :=
          Memory.evenShare_le_of_smaller share
  obtain ⟨budget', planned'⟩ := exists_plan_iff.mpr
    ⟨staffed, shared, Nat.le_trans share within, Nat.le_trans great mono⟩
  refine ⟨budget', planned', ?_⟩
  rw [(isPlan_of_plan planned).bytes_eq, (isPlan_of_plan planned').bytes_eq]
  exact Memory.limitToBuffer_mono mono

/-- The plan for four workers in 256 MiB stays one for two workers, a mebibyte more and a percentage
that is smaller by one. -/
theorem plan_mono_four_workers : ∃ budget, plan 0x10000000 4 10 = .ok budget ∧
    ∃ budget', plan 0x10100000 2 9 = .ok budget' ∧ budget.bufferBytes ≤ budget'.bufferBytes :=
  ⟨_, rfl, plan_mono (show plan 0x10000000 4 10 = .ok _ from rfl) (by decide) (by decide) (by decide)
    (by decide) (by decide)⟩

end MemoryBudget

end TreeExport

import TreeExport.Proofs.Memory.Advice

/-!
# Planning in words

A machine reckons the plan in words of 64 bits, where a result may not fit, a divisor may be zero, and
a difference may be cut off at zero.  `Word` has the operations that notice this, and
`MemoryBudget.planWords` is the plan with them: none of it ever happens, and the plan is that of the
numbers that the words stand for (`MemoryBudget.planWords_eq`).
-/

namespace TreeExport

/-! ## Words -/

namespace Word

/-- What an operation on words cannot do. -/
inductive Fault
  | overflow
  | divisionByZero
  /-- The difference is less than zero, where the machine would put zero. -/
  | cutOff
  deriving Repr, DecidableEq

/-- The sum of two words, if it fits in one. -/
def add (a b : UInt64) : Except Fault UInt64 :=
  if a.toNat + b.toNat < UInt64.size then .ok (a + b) else .error .overflow

/-- The product of two words, if it fits in one. -/
def mul (a b : UInt64) : Except Fault UInt64 :=
  if a.toNat * b.toNat < UInt64.size then .ok (a * b) else .error .overflow

/-- The difference of two words, if it is not less than zero. -/
def sub (a b : UInt64) : Except Fault UInt64 :=
  if a < b then .error .cutOff else .ok (a - b)

/-- The quotient of two words, rounded down. -/
def div (a b : UInt64) : Except Fault UInt64 :=
  if b = 0 then .error .divisionByZero else .ok (a / b)

/-- Nothing has gone wrong, and the word stands for a number. -/
def Gives (computed : Except Fault UInt64) (n : Nat) : Prop :=
  ∃ word, computed = .ok word ∧ word.toNat = n

theorem bind_of_ok {α β : Type} {first : Except Fault α} {value : α} (done : first = .ok value)
    (next : α → Except Fault β) : (first >>= next) = next value := by
  rw [done]
  rfl

variable {a b : UInt64}

theorem add_gives (fits : a.toNat + b.toNat < UInt64.size) : Gives (add a b) (a.toNat + b.toNat) :=
  ⟨a + b, if_pos fits, by rw [UInt64.toNat_add]; exact Nat.mod_eq_of_lt fits⟩

theorem mul_gives (fits : a.toNat * b.toNat < UInt64.size) : Gives (mul a b) (a.toNat * b.toNat) :=
  ⟨a * b, if_pos fits, by rw [UInt64.toNat_mul]; exact Nat.mod_eq_of_lt fits⟩

theorem sub_gives (less : b.toNat ≤ a.toNat) : Gives (sub a b) (a.toNat - b.toNat) :=
  ⟨a - b, if_neg (Nat.not_lt.mpr less), UInt64.toNat_sub_of_le _ _ less⟩

theorem div_gives (some : 0 < b.toNat) : Gives (div a b) (a.toNat / b.toNat) := by
  refine ⟨a / b, if_neg ?_, UInt64.toNat_div _ _⟩
  rintro rfl
  exact absurd some (Nat.lt_irrefl 0)

theorem toNat_min (a b : UInt64) : (min a b).toNat = min a.toNat b.toNat := by
  change UInt64.toNat (if a ≤ b then a else b) = _
  rw [Nat.min_def, apply_ite UInt64.toNat]
  rfl

theorem toNat_max (a b : UInt64) : (max a b).toNat = max a.toNat b.toNat := by
  change UInt64.toNat (if a ≤ b then b else a) = _
  rw [Nat.max_def, apply_ite UInt64.toNat]
  rfl

end Word

/-! ## The plan -/

namespace Memory

/-- A size cut down to that of the greatest buffer. -/
def limitWord (bytes : UInt64) : UInt64 :=
  min bytes (.ofNat maxBufferBytes)

/-- The memory set aside for sort keys. -/
def sortKeyReserveWords (total buffers : UInt64) (percentage : UInt32) :
    Except Word.Fault UInt64 := do
  let share ← Word.div total (max buffers 1)
  let scaled ← Word.mul (limitWord share) percentage.toUInt64
  Word.div scaled 100

theorem toNat_limitWord (bytes : UInt64) : (limitWord bytes).toNat = limitToBuffer bytes.toNat :=
  Word.toNat_min bytes (.ofNat maxBufferBytes)

/-- A percentage of the greatest buffer fits in a word, whatever the percentage. -/
theorem sortKeyReserveWords_gives (total buffers : UInt64) (percentage : UInt32) :
    Word.Gives (sortKeyReserveWords total buffers percentage)
      (sortKeyReserve total.toNat buffers.toNat percentage.toNat) := by
  have some : 0 < (max buffers 1).toNat := by
    rw [Word.toNat_max]
    exact Nat.lt_of_lt_of_le Nat.one_pos (Nat.le_max_right _ _)
  obtain ⟨share, shared, shareIs⟩ := Word.div_gives (a := total) some
  have fits : (limitWord share).toNat * percentage.toUInt64.toNat < UInt64.size := by
    rw [toNat_limitWord]
    calc limitToBuffer share.toNat * percentage.toNat
        ≤ maxBufferBytes * (UInt32.size - 1) :=
          Nat.mul_le_mul (Nat.min_le_right _ _) (Nat.le_pred_of_lt percentage.toNat_lt)
      _ < UInt64.size := by decide
  obtain ⟨scaled, scales, scaledIs⟩ := Word.mul_gives fits
  obtain ⟨reserve, reserves, reserveIs⟩ :=
    Word.div_gives (a := scaled) (b := 100) (by decide)
  refine ⟨reserve, ?_, ?_⟩
  · rw [sortKeyReserveWords, shared]
    exact (congrArg (· >>= (Word.div · 100)) scales).trans reserves
  · rw [reserveIs, scaledIs, toNat_limitWord, shareIs, Word.toNat_max]
    rfl

end Memory

namespace MemoryBudget

/-- Divides the memory in words; the budget is that of the numbers that the words stand for. -/
def planWords (total workers : UInt64) (percentage : UInt32) :
    Except Word.Fault (Except Refusal MemoryBudget) := do
  if workers = 0 then return .error .noWorkers
  if percentage = 0 ∨ 100 < percentage then return .error (.percentage percentage.toNat)
  let buffers ← Word.add workers 1
  let reserve ← Memory.sortKeyReserveWords total buffers percentage
  let left ← Word.sub total reserve
  let share ← Word.div left buffers
  let bytes := Memory.limitWord share
  if bytes < .ofNat Memory.minBufferBytes then return .error (.bufferTooSmall bytes.toNat)
  let entries ← Word.div reserve (.ofNat Memory.sortKeyBytes)
  return .ok ⟨total.toNat, buffers.toNat, bytes.toNat, reserve.toNat, (max entries 1).toNat⟩

/-- Nothing goes wrong in a plan, as long as the workers can be counted in 32 bits. -/
theorem planWords_eq (total : UInt64) {workers : UInt64} (percentage : UInt32)
    (few : workers.toNat < UInt32.size) : planWords total workers percentage =
      .ok (plan total.toNat workers.toNat percentage.toNat) := by
  have noWorkers : workers = 0 ↔ workers.toNat = 0 := UInt64.toNat_inj.symm
  have percentages : percentage = 0 ∨ 100 < percentage ↔
      percentage.toNat = 0 ∨ 100 < percentage.toNat := or_congr UInt32.toNat_inj.symm Iff.rfl
  unfold planWords plan
  by_cases none : workers = 0
  · rw [if_pos none, if_pos (noWorkers.mp none)]
    rfl
  rw [if_neg none, if_neg ((not_congr noWorkers).mp none)]
  by_cases outside : percentage = 0 ∨ 100 < percentage
  · rw [if_pos outside, if_pos (percentages.mp outside)]
    rfl
  rw [if_neg outside, if_neg ((not_congr percentages).mp outside)]
  have within : percentage.toNat ≤ 100 := Nat.not_lt.mp fun above => outside (.inr above)
  have counted : workers.toNat + (1 : UInt64).toNat < UInt64.size :=
    Nat.lt_of_le_of_lt (Nat.add_le_add_right (Nat.le_of_lt few) _) (by decide)
  obtain ⟨buffers, added, buffersAre⟩ := Word.add_gives counted
  have some : 0 < buffers.toNat := by
    rw [buffersAre]
    exact Nat.succ_pos _
  obtain ⟨reserve, reserved, reserveIs⟩ :=
    Memory.sortKeyReserveWords_gives total buffers percentage
  have whole : reserve.toNat ≤ total.toNat := by
    rw [reserveIs]
    exact Memory.sortKeyReserve_le_total _ within some
  obtain ⟨left, subtracted, leftIs⟩ := Word.sub_gives whole
  obtain ⟨share, shared, shareIs⟩ := Word.div_gives (a := left) some
  obtain ⟨entries, divided, entriesAre⟩ :=
    Word.div_gives (a := reserve) (b := .ofNat Memory.sortKeyBytes) (by decide)
  have bytesAre : (Memory.limitWord share).toNat = Memory.limitToBuffer
      ((total.toNat - Memory.sortKeyReserve total.toNat (workers.toNat + 1) percentage.toNat) /
        (workers.toNat + 1)) := by
    rw [Memory.toNat_limitWord, shareIs, leftIs, reserveIs, buffersAre]
    rfl
  simp only [added, reserved, subtracted, shared, divided, bind, Except.bind, pure, Except.pure]
  rw [← bytesAre]
  have tooSmall : Memory.limitWord share < .ofNat Memory.minBufferBytes ↔
      (Memory.limitWord share).toNat < Memory.minBufferBytes := Iff.rfl
  by_cases small : Memory.limitWord share < .ofNat Memory.minBufferBytes
  · rw [if_pos small, if_pos (tooSmall.mp small)]
  · rw [if_neg small, if_neg ((not_congr tooSmall).mp small), Word.toNat_max, entriesAre, reserveIs,
      buffersAre]
    rfl

end MemoryBudget

end TreeExport

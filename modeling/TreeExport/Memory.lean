import TreeExport.Decimal.Binary64
import TreeExport.Error

/-!
# Memory planning

All buffers are sized once, before a dump starts.  Every worker gets a buffer and one more is for
sort-and-store; a share of one buffer is set aside for sort keys, and what is left is divided
evenly.  `MemoryBudget.plan` refuses a division that leaves less than `minBufferBytes` to a buffer.
-/

namespace TreeExport

namespace Memory

/-- The bytes of a mebibyte. -/
def mebibyte : Nat := 1024 * 1024

/-- The least number of mebibytes that detection yields. -/
def minDetectedMebibytes : Nat := 128

/-- The greatest number of mebibytes that detection yields. -/
def maxDetectedMebibytes : Nat := 4000

/-- The mebibytes that detection leaves to everything else. -/
def reservedMebibytes : Nat := 2048

/-- The least size of an entry buffer. -/
def minBufferBytes : Nat := 32 * mebibyte

/-- The greatest size of an entry buffer, `2^31 - 17`. -/
def maxBufferBytes : Nat := 0x7FFFFFEF

/-- The memory that one sort key is taken to need. -/
def sortKeyBytes : Nat := 256

/-- A size cut down to that of the greatest buffer. -/
def limitToBuffer (bytes : Nat) : Nat :=
  min bytes maxBufferBytes

/-- The working memory for a number of free mebibytes: what is not reserved, within bounds. -/
def detectedMebibytes (free : Nat) : Nat :=
  min (max (free - reservedMebibytes) minDetectedMebibytes) maxDetectedMebibytes

/-- The working memory that a configuration sets, or else the one that fits the free memory. -/
def workingBytes (configured free : Nat) : Nat :=
  (if 0 < configured then configured else detectedMebibytes free) * mebibyte

/-- A size in the first of the units in which it is below 1024, or in the last; `divisor` is the
size of the first unit. -/
def sizeIn (value divisor : Nat) : List String → String
  | [] => Decimal.onePlace value divisor
  | [unit] => s!"{Decimal.onePlace value divisor} {unit}"
  | unit :: greater =>
    if value < 1024 * divisor then s!"{Decimal.onePlace value divisor} {unit}"
    else sizeIn value (1024 * divisor) greater

/-- A size for reading: whole bytes below 1024, else one decimal place of the size rounded to 53
binary digits. -/
def sizeText (bytes : Nat) : String :=
  if bytes < 1024 then s!"{bytes} B"
  else
    sizeIn ((Decimal.Magnitude.ofNat bytes).units >>> 1074) 1024 ["KiB", "MiB", "GiB", "TiB", "PiB"]

/-- The memory set aside for sort keys: a percentage of one buffer's even share. -/
def sortKeyReserve (total buffers percentage : Nat) : Nat :=
  limitToBuffer (total / max buffers 1) * percentage / 100

end Memory

/-- How the working memory is divided. -/
structure MemoryBudget where
  total : Nat
  buffers : Nat
  bufferBytes : Nat
  sortKeyReserve : Nat
  entriesPerBuffer : Nat
  deriving Repr, DecidableEq

namespace MemoryBudget

/-- Why a division of the memory is refused. -/
inductive Refusal
  | noWorkers
  | percentage (given : Nat)
  | bufferTooSmall (bytes : Nat)
  deriving Repr, DecidableEq

/-- The wording of a refusal. -/
def Refusal.message : Refusal → String
  | noWorkers => "transform thread count must be > 0"
  | percentage given =>
    s!"invalid sort buffer memory percentage: {given}. Must be between 1 and 100"
  | bufferTooSmall bytes =>
    s!"entry batch buffer size too small: {Memory.sizeText bytes}. Must be at least " ++
      s!"{Memory.sizeText Memory.minBufferBytes}. " ++
      "Increase working_memory_mb or reduce transform_threads"

/-- The refusal as a failure. -/
def Refusal.toError (refusal : Refusal) : Error :=
  .config refusal.message

/-- Divides `total` bytes between the buffers of `workers` workers and of sort-and-store. -/
def plan (total workers percentage : Nat) : Except Refusal MemoryBudget :=
  if workers = 0 then .error .noWorkers
  else if percentage = 0 ∨ 100 < percentage then .error (.percentage percentage)
  else
    let buffers := workers + 1
    let reserve := Memory.sortKeyReserve total buffers percentage
    let bytes := Memory.limitToBuffer ((total - reserve) / buffers)
    if bytes < Memory.minBufferBytes then .error (.bufferTooSmall bytes)
    else
      .ok
        { total := total
          buffers := buffers
          bufferBytes := bytes
          sortKeyReserve := reserve
          entriesPerBuffer := max (reserve / Memory.sortKeyBytes) 1 }

end MemoryBudget

end TreeExport

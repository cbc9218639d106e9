import TreeExport.Text.Utf8

/-!
# Streams in pieces

What is read arrives in pieces of any length, and a call may be interrupted before anything
arrives.  `Feed.take` gathers bytes over as many calls as it needs, so its result depends on the
bytes of the stream alone: `Feed.take_fst` and `Feed.take_snd` say which they are.
-/

namespace TreeExport

/-- What one call to a stream delivers. -/
inductive Delivery
  /-- At least one byte. -/
  | piece (first : UInt8) (rest : Bytes)
  /-- Nothing yet. -/
  | interruption
  deriving Repr, DecidableEq

/-- The deliveries of a stream up to its end. -/
abbrev Feed := List Delivery

namespace Feed

/-- A stream that delivers bytes in one piece. -/
def whole : Bytes → Feed
  | [] => []
  | first :: rest => [.piece first rest]

/-- All bytes of a stream. -/
def bytes : Feed → Bytes
  | [] => []
  | .piece first rest :: feed => first :: (rest ++ bytes feed)
  | .interruption :: feed => bytes feed

/-- Takes a number of bytes, or all that are left if there are fewer; also the stream after them.
A call delivers no more than is asked for, and the rest of a piece comes with the next call. -/
def take : Nat → Feed → Bytes × Feed
  | 0, feed => ([], feed)
  | _ + 1, [] => ([], [])
  | n + 1, .interruption :: feed => take (n + 1) feed
  | n + 1, .piece first rest :: feed =>
    if n ≤ rest.length then (first :: rest.take n, whole (rest.drop n) ++ feed)
    else
      let (more, left) := take (n - rest.length) feed
      (first :: (rest ++ more), left)

theorem bytes_whole (content : Bytes) : bytes (whole content) = content := by
  cases content <;> simp [whole, bytes]

theorem bytes_append (feed more : Feed) : bytes (feed ++ more) = bytes feed ++ bytes more := by
  induction feed with
  | nil => rfl
  | cons delivery feed ih => cases delivery <;> simp [bytes, ih]

/-- Pieces and interruptions make no difference to what is taken. -/
theorem take_fst (n : Nat) (feed : Feed) : (take n feed).1 = feed.bytes.take n := by
  fun_induction take n feed with
  | case1 => simp
  | case2 => simp [bytes]
  | case3 n feed ih => simpa [bytes] using ih
  | case4 n first rest feed short => simp [bytes, List.take_append_of_le_length short]
  | case5 n first rest feed long more left taken ih =>
    simp only [taken] at ih
    simp [bytes, ih, List.take_append, List.take_of_length_le (Nat.le_of_not_le long)]

/-- Pieces and interruptions make no difference to what is left. -/
theorem take_snd (n : Nat) (feed : Feed) : (take n feed).2.bytes = feed.bytes.drop n := by
  fun_induction take n feed with
  | case1 => simp
  | case2 => simp [bytes]
  | case3 n feed ih => simpa [bytes] using ih
  | case4 n first rest feed short =>
    simp [bytes, bytes_append, bytes_whole, List.drop_append_of_le_length short]
  | case5 n first rest feed long more left taken ih =>
    simp only [taken] at ih
    simp [bytes, ih, List.drop_append, List.drop_of_length_le (Nat.le_of_not_le long)]

end Feed

end TreeExport

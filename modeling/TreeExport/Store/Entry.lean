import TreeExport.Length
import TreeExport.Store.Feed

/-!
# Stored entries

The files of a store are sequences of entries: the length of the path, the path, the length of the
data, the data.  `Reading.ofFeed` reads all entries of a stream, up to its end or up to the first
thing that is no entry.
-/

namespace TreeExport

/-- An entry as a store keeps it. -/
structure StoredEntry where
  path : String
  data : Bytes
  deriving Repr, DecidableEq

namespace StoredEntry

/-- Why an entry cannot be written. -/
inductive TooLong
  | path
  | data
  deriving Repr, DecidableEq

/-- The wording of the reason. -/
def TooLong.message : TooLong → String
  | path => "path too long"
  | data => "entry data too long"

/-- The bytes of an entry whose lengths can be written. -/
def bytes (entry : StoredEntry) : Bytes :=
  Length.encode (Utf8.size entry.path) ++
    (Utf8.encode entry.path ++ (Length.encode entry.data.length ++ entry.data))

/-- The bytes of an entry. -/
def encode (entry : StoredEntry) : Except TooLong Bytes :=
  if Length.limit ≤ Utf8.size entry.path then .error .path
  else if Length.limit ≤ entry.data.length then .error .data
  else .ok entry.bytes

/-- Why bytes are no entry. -/
inductive ReadFault
  /-- The stream ends within the first length. -/
  | endInLength
  /-- The stream ends later. -/
  | endInside
  | pathNotText (fault : Utf8.Fault)
  deriving Repr, DecidableEq

/-- The wording of a fault. -/
def ReadFault.message : ReadFault → String
  | endInLength => "unexpected end of file"
  | endInside => "failed to fill whole buffer"
  | pathNotText fault => fault.message

/-- Takes exactly so many bytes. -/
def takeExactly (n : Nat) (feed : Feed) : Except ReadFault (Bytes × Feed) :=
  let (bytes, rest) := feed.take n
  if bytes.length = n then .ok (bytes, rest) else .error .endInside

/-- Takes exactly so many bytes, unless the stream has ended. -/
def takeExactlyOrEnd (n : Nat) (feed : Feed) : Except ReadFault (Option (Bytes × Feed)) :=
  let (bytes, rest) := feed.take n
  if bytes.length = n then .ok (some (bytes, rest))
  else if bytes.isEmpty then .ok none
  else .error .endInLength

/-- Reads one entry, or nothing at the end of the stream. -/
def read (feed : Feed) : Except ReadFault (Option (StoredEntry × Feed)) := do
  match ← takeExactlyOrEnd Length.width feed with
  | none => pure none
  | some (pathLength, rest) =>
    let (pathBytes, rest) ← takeExactly (Length.decode pathLength) rest
    let path ← (Utf8.decode pathBytes).mapError .pathNotText
    let (dataLength, rest) ← takeExactly Length.width rest
    let (data, rest) ← takeExactly (Length.decode dataLength) rest
    pure (some (⟨path, data⟩, rest))

theorem takeExactly_bytes {n : Nat} {feed rest : Feed} {bytes : Bytes}
    (taken : takeExactly n feed = .ok (bytes, rest)) :
    bytes.length = n ∧ feed.bytes = bytes ++ rest.bytes := by
  have front := Feed.take_fst n feed
  have back := Feed.take_snd n feed
  unfold takeExactly at taken
  generalize Feed.take n feed = answer at taken front back
  obtain ⟨first, second⟩ := answer
  simp only at taken
  split at taken
  · cases taken
    exact ⟨by assumption, by simp_all⟩
  · cases taken

theorem takeExactlyOrEnd_bytes {n : Nat} {feed rest : Feed} {bytes : Bytes}
    (taken : takeExactlyOrEnd n feed = .ok (some (bytes, rest))) :
    bytes.length = n ∧ feed.bytes = bytes ++ rest.bytes := by
  have front := Feed.take_fst n feed
  have back := Feed.take_snd n feed
  unfold takeExactlyOrEnd at taken
  generalize Feed.take n feed = answer at taken front back
  obtain ⟨first, second⟩ := answer
  simp only at taken
  split at taken
  · cases taken
    exact ⟨by assumption, by simp_all⟩
  · split at taken <;> cases taken

/-- A result of two things done in turn comes out of a result of the first. -/
theorem exists_of_bind {ε α β : Type} {first : Except ε α} {next : α → Except ε β} {result : β}
    (done : (first >>= next) = .ok result) :
    ∃ value, first = .ok value ∧ next value = .ok result := by
  cases first with
  | error fault => cases done
  | ok value => exact ⟨value, rfl, done⟩

/-- Reading an entry leaves less of the stream. -/
theorem read_shorter {feed rest : Feed} {entry : StoredEntry}
    (done : read feed = .ok (some (entry, rest))) : rest.bytes.length < feed.bytes.length := by
  unfold read at done
  obtain ⟨_ | ⟨pathLength, _⟩, first, done⟩ := exists_of_bind done
  · cases done
  · obtain ⟨⟨pathBytes, _⟩, second, done⟩ := exists_of_bind done
    obtain ⟨path, _, done⟩ := exists_of_bind done
    obtain ⟨⟨dataLength, _⟩, third, done⟩ := exists_of_bind done
    obtain ⟨⟨data, _⟩, fourth, done⟩ := exists_of_bind done
    cases done
    obtain ⟨width, split⟩ := takeExactlyOrEnd_bytes first
    rw [split, (takeExactly_bytes second).2, (takeExactly_bytes third).2,
      (takeExactly_bytes fourth).2]
    simp only [Length.width] at width
    simp only [List.length_append]
    omega

end StoredEntry

/-- What reading a stream to its end yields: the entries, and why reading stopped if it was not at
the end. -/
structure Reading where
  entries : List StoredEntry
  fault : Option StoredEntry.ReadFault
  deriving Repr, DecidableEq

/-- Reads entries to the end of a stream. -/
def Reading.ofFeed (feed : Feed) : Reading :=
  match _step : StoredEntry.read feed with
  | .ok none => ⟨[], none⟩
  | .error fault => ⟨[], some fault⟩
  | .ok (some (entry, rest)) =>
    let later := ofFeed rest
    ⟨entry :: later.entries, later.fault⟩
termination_by feed.bytes.length
decreasing_by exact StoredEntry.read_shorter _step

/-- Reads the entries that bytes hold. -/
def Reading.ofBytes (bytes : Bytes) : Reading :=
  ofFeed (Feed.whole bytes)

end TreeExport

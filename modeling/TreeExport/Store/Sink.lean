import TreeExport.Hash.Sha256

/-!
# Digesting sinks

What is written is accepted in pieces of any length, and a call may be interrupted before anything
is accepted.  `Sink.writeAll` offers what is left until all is accepted; the digest follows what was
accepted and not what was offered.
-/

namespace TreeExport

/-- What a sink does at one call. -/
inductive Acceptance
  /-- It accepts one byte and up to so many more. -/
  | upTo (more : Nat)
  /-- It accepts nothing yet. -/
  | interruption
  deriving Repr, DecidableEq

/-- A sink: what it will do at the calls to come, after which it accepts all that it is offered;
what it has accepted; and the digest of that. -/
structure Sink where
  acceptances : List Acceptance := []
  accepted : Bytes := []
  digest : Sha256 := {}

namespace Sink

/-- The sink has accepted some bytes more, and goes on with other calls. -/
def accept (sink : Sink) (acceptances : List Acceptance) (bytes : Bytes) : Sink :=
  ⟨acceptances, sink.accepted ++ bytes, sink.digest.update bytes⟩

/-- Offers bytes until all are accepted. -/
def offer (sink : Sink) (bytes : Bytes) : List Acceptance → Sink
  | [] => sink.accept [] bytes
  | .interruption :: calls => offer sink bytes calls
  | .upTo more :: calls =>
    if bytes.length ≤ more + 1 then sink.accept calls bytes
    else offer (sink.accept calls (bytes.take (more + 1))) (bytes.drop (more + 1)) calls

/-- Writes bytes. -/
def writeAll (sink : Sink) (bytes : Bytes) : Sink :=
  if bytes.isEmpty then sink else sink.offer bytes sink.acceptances

end Sink

end TreeExport

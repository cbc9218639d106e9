/-!
# UTF-8

Text as bytes.  `Utf8.encode` writes a string; `Utf8.decode` reads bytes one at a time through
the states of `Utf8.State`, so the length of the readable part and the length of what spoils it
come out of the same walk.  `Utf8.decodeLossy` is the reader that never refuses: what `decode`
would stop at becomes one replacement character.
-/

namespace TreeExport

/-- A run of bytes. -/
abbrev Bytes := List UInt8

namespace Utf8

/-- The bytes of a text. -/
def encode (text : String) : Bytes :=
  text.toList.flatMap String.utf8EncodeChar

/-- The number of bytes of a text. -/
def size (text : String) : Nat :=
  text.utf8ByteSize

/-- What the bytes read so far of one character ask of the next byte. -/
inductive State
  /-- No byte of a character has been read. -/
  | start
  /-- `read` bytes of a character are read and `left` are missing; the next one must lie between
  `low` and `high`; `value` holds the payload bits so far. -/
  | within (read left : Nat) (low high : UInt8) (value : Nat)
  deriving Repr, DecidableEq

/-- What one more byte makes of a state. -/
inductive Advance
  /-- The byte completes a character. -/
  | complete (c : Char)
  /-- The character needs more bytes. -/
  | pending (state : State)
  /-- No character goes on with this byte. -/
  | refused

/-- The first byte of a character fixes how many follow and, so that every character has one
spelling and surrogates have none, the range of the second. -/
def lead (b : UInt8) : Advance :=
  if b < 0x80 then .complete (Char.ofNat b.toNat)
  else if b < 0xC2 then .refused
  else if b < 0xE0 then .pending (.within 1 1 0x80 0xBF (b.toNat - 0xC0))
  else if b = 0xE0 then .pending (.within 1 2 0xA0 0xBF 0)
  else if b = 0xED then .pending (.within 1 2 0x80 0x9F 0xD)
  else if b < 0xF0 then .pending (.within 1 2 0x80 0xBF (b.toNat - 0xE0))
  else if b = 0xF0 then .pending (.within 1 3 0x90 0xBF 0)
  else if b < 0xF4 then .pending (.within 1 3 0x80 0xBF (b.toNat - 0xF0))
  else if b = 0xF4 then .pending (.within 1 3 0x80 0x8F 4)
  else .refused

/-- Reads one byte. -/
def State.advance : State → UInt8 → Advance
  | .start, b => lead b
  | .within read left low high value, b =>
    if low ≤ b ∧ b ≤ high then
      let value := value * 64 + (b.toNat - 0x80)
      if left ≤ 1 then .complete (Char.ofNat value)
      else .pending (.within (read + 1) (left - 1) 0x80 0xBF value)
    else .refused

/-- The number of bytes of a character that a byte cannot continue: the bytes read before it, or
the byte itself if there are none. -/
def State.spoilt : State → Nat
  | .start => 1
  | .within read _ _ _ _ => read

/-- Why bytes are no text: where the readable part ends, and how many bytes follow it that begin
no character.  There is no such number if the bytes end inside a character. -/
structure Fault where
  valid : Nat
  length : Option Nat
  deriving Repr, DecidableEq

/-- The wording of a fault. -/
def Fault.message (fault : Fault) : String :=
  match fault.length with
  | some n => s!"invalid utf-8 sequence of {n} bytes from index {fault.valid}"
  | none => s!"incomplete utf-8 byte sequence from index {fault.valid}"

/-- Reads on from `state`; `valid` bytes make up the characters `done`, the last one first. -/
def decodeFrom (state : State) (valid : Nat) (done : List Char) : Bytes → Except Fault (List Char)
  | [] =>
    match state with
    | .start => .ok done.reverse
    | .within .. => .error ⟨valid, none⟩
  | b :: rest =>
    match state.advance b with
    | .complete c => decodeFrom .start (valid + c.utf8Size) (c :: done) rest
    | .pending next => decodeFrom next valid done rest
    | .refused => .error ⟨valid, some state.spoilt⟩

/-- Reads bytes as text. -/
def decode (bytes : Bytes) : Except Fault String :=
  (decodeFrom .start 0 [] bytes).map String.ofList

/-- The character that stands for bytes that are no text. -/
def replacement : Char := '\uFFFD'

/-- Reads on from `state`, putting a replacement character for each stretch of bytes that begins
no character. -/
def decodeLossyFrom (state : State) (done : List Char) : Bytes → List Char
  | [] =>
    match state with
    | .start => done.reverse
    | .within .. => (replacement :: done).reverse
  | b :: rest =>
    match state.advance b with
    | .complete c => decodeLossyFrom .start (c :: done) rest
    | .pending next => decodeLossyFrom next done rest
    | .refused =>
      match state with
      | .start => decodeLossyFrom .start (replacement :: done) rest
      | .within .. =>
        match lead b with
        | .complete c => decodeLossyFrom .start (c :: replacement :: done) rest
        | .pending next => decodeLossyFrom next (replacement :: done) rest
        | .refused => decodeLossyFrom .start (replacement :: replacement :: done) rest

/-- Reads bytes as text, whatever they are. -/
def decodeLossy (bytes : Bytes) : String :=
  String.ofList (decodeLossyFrom .start [] bytes)

end Utf8

end TreeExport

import TreeExport.Text.Hex

/-!
# SHA-256

A digest takes up bytes one at a time, so how the bytes are divided between calls makes no
difference.  Every 64 bytes are a block, which is mixed into eight words; at the end the bytes are
filled up to whole blocks by a mark, zeros, and their number of bits.
-/

namespace TreeExport

namespace Sha256

/-- The eight words that blocks are mixed into. -/
structure Words where
  a : UInt32
  b : UInt32
  c : UInt32
  d : UInt32
  e : UInt32
  f : UInt32
  g : UInt32
  h : UInt32
  deriving Repr, DecidableEq

/-- The words before the first block: the fractions of the square roots of the first eight primes,
to 32 bits. -/
def Words.initial : Words :=
  ⟨0x6A09E667, 0xBB67AE85, 0x3C6EF372, 0xA54FF53A, 0x510E527F, 0x9B05688C, 0x1F83D9AB, 0x5BE0CD19⟩

/-- The constants of the rounds: the fractions of the cube roots of the first 64 primes, to 32
bits. -/
def roundConstants : List UInt32 :=
  [0x428A2F98, 0x71374491, 0xB5C0FBCF, 0xE9B5DBA5, 0x3956C25B, 0x59F111F1, 0x923F82A4, 0xAB1C5ED5,
    0xD807AA98, 0x12835B01, 0x243185BE, 0x550C7DC3, 0x72BE5D74, 0x80DEB1FE, 0x9BDC06A7, 0xC19BF174,
    0xE49B69C1, 0xEFBE4786, 0x0FC19DC6, 0x240CA1CC, 0x2DE92C6F, 0x4A7484AA, 0x5CB0A9DC, 0x76F988DA,
    0x983E5152, 0xA831C66D, 0xB00327C8, 0xBF597FC7, 0xC6E00BF3, 0xD5A79147, 0x06CA6351, 0x14292967,
    0x27B70A85, 0x2E1B2138, 0x4D2C6DFC, 0x53380D13, 0x650A7354, 0x766A0ABB, 0x81C2C92E, 0x92722C85,
    0xA2BFE8A1, 0xA81A664B, 0xC24B8B70, 0xC76C51A3, 0xD192E819, 0xD6990624, 0xF40E3585, 0x106AA070,
    0x19A4C116, 0x1E376C08, 0x2748774C, 0x34B0BCB5, 0x391C0CB3, 0x4ED8AA4A, 0x5B9CCA4F, 0x682E6FF3,
    0x748F82EE, 0x78A5636F, 0x84C87814, 0x8CC70208, 0x90BEFFFA, 0xA4506CEB, 0xBEF9A3F7, 0xC67178F2]

/-- A word with its bits turned to the right. -/
def rotate (x n : UInt32) : UInt32 :=
  (x >>> n) ||| (x <<< (32 - n))

/-- One round, with its constant and its word of the block. -/
def Words.round (k w : UInt32) (s : Words) : Words :=
  let choice := (s.e &&& s.f) ^^^ (~~~s.e &&& s.g)
  let majority := (s.a &&& s.b) ^^^ (s.a &&& s.c) ^^^ (s.b &&& s.c)
  let t := s.h + (rotate s.e 6 ^^^ rotate s.e 11 ^^^ rotate s.e 25) + choice + k + w
  let u := (rotate s.a 2 ^^^ rotate s.a 13 ^^^ rotate s.a 22) + majority
  ⟨t + u, s.a, s.b, s.c, s.d + t, s.e, s.f, s.g⟩

/-- The word that follows sixteen others of a block. -/
def nextWord (window : List UInt32) : UInt32 :=
  let x := window.getD 1 0
  let y := window.getD 14 0
  window.getD 0 0 + (rotate x 7 ^^^ rotate x 18 ^^^ (x >>> 3)) + window.getD 9 0 +
    (rotate y 17 ^^^ rotate y 19 ^^^ (y >>> 10))

/-- The rounds of a block, one for each constant; the window holds the word of this round and the
fifteen after it. -/
def Words.rounds (s : Words) : List UInt32 → List UInt32 → Words
  | k :: constants, w :: window =>
    (s.round k w).rounds constants (window ++ [nextWord (w :: window)])
  | _, _ => s

/-- The sums of words in the same places. -/
def Words.add (s t : Words) : Words :=
  ⟨s.a + t.a, s.b + t.b, s.c + t.c, s.d + t.d, s.e + t.e, s.f + t.f, s.g + t.g, s.h + t.h⟩

/-- The words that bytes spell, four to a word, the highest first. -/
def wordsOf : Bytes → List UInt32
  | p :: q :: r :: s :: rest =>
    ((p.toUInt32 <<< 24) ||| (q.toUInt32 <<< 16) ||| (r.toUInt32 <<< 8) ||| s.toUInt32) ::
      wordsOf rest
  | _ => []

/-- Mixes in a block. -/
def Words.mix (s : Words) (block : Bytes) : Words :=
  s.add (s.rounds roundConstants (wordsOf block))

/-- The words in order. -/
def Words.toList (s : Words) : List UInt32 :=
  [s.a, s.b, s.c, s.d, s.e, s.f, s.g, s.h]

/-- The number of bytes of a block. -/
def blockLength : Nat := 64

end Sha256

/-- A digest of the bytes taken up so far: the words, the bytes of the block that is not yet full,
the last one first, and the number of all bytes. -/
structure Sha256 where
  words : Sha256.Words := .initial
  pending : Bytes := []
  length : Nat := 0
  deriving Repr, DecidableEq

namespace Sha256

/-- Takes up one byte. -/
def absorb (digest : Sha256) (byte : UInt8) : Sha256 :=
  if digest.length % blockLength = blockLength - 1 then
    ⟨digest.words.mix (byte :: digest.pending).reverse, [], digest.length + 1⟩
  else ⟨digest.words, byte :: digest.pending, digest.length + 1⟩

/-- Takes up bytes. -/
def update (digest : Sha256) (bytes : Bytes) : Sha256 :=
  bytes.foldl absorb digest

/-- What fills up a number of bytes to whole blocks: a mark, zeros, and the number of bits. -/
def padding (length : Nat) : Bytes :=
  0x80 :: (List.replicate ((119 - length % blockLength) % blockLength) (0 : UInt8) ++
    (List.range 8).map fun i => UInt8.ofNat ((8 * length) >>> (56 - 8 * i)))

/-- The bytes of a word, the highest first. -/
def wordBytes (word : UInt32) : Bytes :=
  [24, 16, 8, 0].map fun shift : UInt32 => (word >>> shift).toUInt8

/-- The digest as text. -/
def finish (digest : Sha256) : String :=
  String.ofList
    (Hex.encode ((digest.update (padding digest.length)).words.toList.flatMap wordBytes))

/-- The digest of bytes as text. -/
def hash (bytes : Bytes) : String :=
  (update {} bytes).finish

/-- Bytes may be taken up in pieces. -/
theorem update_append (digest : Sha256) (front back : Bytes) :
    digest.update (front ++ back) = (digest.update front).update back :=
  List.foldl_append

end Sha256

end TreeExport

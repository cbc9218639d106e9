import TreeExport.Text.Utf8

/-!
# Lengths in four bytes

Payloads in a buffer and records in a file stand behind their length, written as the four digits
of the number to the base 256, the highest first.
-/

namespace TreeExport.Length

/-- The number of bytes of a length. -/
def width : Nat := 4

/-- The least number that is too great for a length, `2^32`. -/
def limit : Nat := 0x100000000

/-- The bytes of a length. -/
def encode (n : Nat) : Bytes :=
  [UInt8.ofNat (n / 0x1000000), UInt8.ofNat (n / 0x10000), UInt8.ofNat (n / 0x100), UInt8.ofNat n]

/-- The length that bytes stand for. -/
def decode (bytes : Bytes) : Nat :=
  bytes.foldl (fun n b => n * 256 + b.toNat) 0

@[simp] theorem length_encode (n : Nat) : (encode n).length = width := rfl

/-- A length below the limit is read back. -/
theorem decode_encode {n : Nat} (small : n < limit) : decode (encode n) = n := by
  simp only [decode, encode, List.foldl_cons, List.foldl_nil, UInt8.toNat_ofNat', limit] at *
  omega

end TreeExport.Length

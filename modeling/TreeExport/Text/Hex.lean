import TreeExport.Text.Utf8

/-!
# Bytes as hexadecimal digits

Two digits to a byte, the higher first, in lower case.
-/

namespace TreeExport.Hex

/-- The digit of a number below sixteen. -/
def digit (n : Nat) : Char :=
  if n < 10 then Char.ofNat (48 + n) else Char.ofNat (87 + n)

/-- The number of a digit; capital letters are no digits. -/
def value (c : Char) : Nat :=
  if c.isDigit then c.toNat - 48 else c.toNat - 87

/-- The digits of bytes. -/
def encode (bytes : Bytes) : List Char :=
  bytes.flatMap fun b => [digit (b.toNat / 16), digit (b.toNat % 16)]

/-- The bytes that digits spell, two at a time. -/
def decode : List Char → Bytes
  | a :: b :: rest => UInt8.ofNat (value a * 16 + value b) :: decode rest
  | _ => []

end TreeExport.Hex

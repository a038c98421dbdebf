set_option autoImplicit false

/-!
# Percent escapes

In an address a byte may be written as a percent sign and two hexadecimal digits. `decode?` undoes
that, byte by byte, and reads the bytes as UTF-8. A percent sign that no two digits follow stands
for itself.
-/

namespace KeyLease.Text.PercentCoding

/-- The value of a hexadecimal digit of either case. -/
def hexDigit? (c : Char) : Option Nat :=
  if '0' ≤ c ∧ c ≤ '9' then some (c.toNat - '0'.toNat)
  else if 'a' ≤ c ∧ c ≤ 'f' then some (c.toNat - 'a'.toNat + 10)
  else if 'A' ≤ c ∧ c ≤ 'F' then some (c.toNat - 'A'.toNat + 10)
  else none

/-- The bytes that a text with percent escapes stands for. -/
def bytes : List Char → List UInt8
  | '%' :: hi :: lo :: rest =>
      match hexDigit? hi, hexDigit? lo with
      | some h, some l => UInt8.ofNat (h * 16 + l) :: bytes rest
      | _, _ => String.utf8EncodeChar '%' ++ bytes (hi :: lo :: rest)
  | c :: rest => String.utf8EncodeChar c ++ bytes rest
  | [] => []

/-- The text that a text with percent escapes stands for, if its bytes are one. -/
def decode? (cs : List Char) : Option String := String.fromUTF8? ⟨(bytes cs).toArray⟩

end KeyLease.Text.PercentCoding

/-!
# Hexadecimal text

Lower-case hexadecimal numerals: the shortest form with a leading `0x`, the same form padded to a
given width, and pairs of digits for the bytes of a memory dump.
-/

namespace KernelResources.Text

/-- The digits of `n` in base 16, most significant first. -/
def hexDigits (n : Nat) : List Char := Nat.toDigits 16 n

/-- `n` in hexadecimal with a leading `0x` and no padding. -/
def hex (n : Nat) : String := "0x" ++ String.ofList (hexDigits n)

/-- `n` in hexadecimal with a leading `0x`, filled up with zeros to at least `width` digits. -/
def hexPadded (width n : Nat) : String :=
  let digits := hexDigits n
  "0x" ++ String.ofList (List.replicate (width - digits.length) '0' ++ digits)

/-- The two hexadecimal digits of a byte. -/
def hexByte (b : UInt8) : String :=
  let digits := hexDigits b.toNat
  String.ofList (List.replicate (2 - digits.length) '0' ++ digits)

/-- A byte string as pairs of hexadecimal digits. -/
def hexBytes (bytes : List UInt8) : String := String.join (bytes.map hexByte)

/-- The value of one hexadecimal digit of either case. -/
def hexValue? (c : Char) : Option Nat :=
  if c.isDigit then some (c.toNat - '0'.toNat)
  else if 'a' ≤ c ∧ c ≤ 'f' then some (c.toNat - 'a'.toNat + 10)
  else if 'A' ≤ c ∧ c ≤ 'F' then some (c.toNat - 'A'.toNat + 10)
  else none

/-- Reads a byte string back from pairs of hexadecimal digits. -/
def bytesOfHex? : List Char → Option (List UInt8)
  | [] => some []
  | hi :: lo :: rest => do
    let h ← hexValue? hi
    let l ← hexValue? lo
    let bytes ← bytesOfHex? rest
    return UInt8.ofNat (16 * h + l) :: bytes
  | [_] => none

end KernelResources.Text

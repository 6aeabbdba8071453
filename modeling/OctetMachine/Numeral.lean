/-!
# Numerals

The spellings of a number that listings, reports and messages use: decimal without leading zeros,
and binary or hexadecimal at the full width of a byte. Every digit is written, so a full-width
numeral determines its byte. Hexadecimal digits are read in either case.
-/

namespace OctetMachine.Numeral

/-- The last `width` digits of a number, most significant first. -/
def fixedDigits (base : Nat) : Nat → Nat → List Char
  | 0, _ => []
  | width + 1, n => fixedDigits base width (n / base) ++ [Nat.digitChar (n % base)]

/-- Eight binary digits. -/
def binary (b : UInt8) : String := String.ofList (fixedDigits 2 8 b.toNat)

/-- Two hexadecimal digits, letters in lower case. -/
def hex (b : UInt8) : String := String.ofList (fixedDigits 16 2 b.toNat)

/-- Two hexadecimal digits, letters in upper case. -/
def upperHex (b : UInt8) : String :=
  String.ofList ((fixedDigits 16 2 b.toNat).map Char.toUpper)

/-- Decimal digits without leading zeros; zero is one digit. -/
def decimalDigits (n : Nat) : List Char := Nat.toDigits 10 n

def decimal (n : Nat) : String := String.ofList (decimalDigits n)

/-- The value of a hexadecimal digit. -/
def hexValue? (c : Char) : Option Nat :=
  if c.isDigit then some (c.toNat - '0'.toNat)
  else if 'a' ≤ c ∧ c ≤ 'f' then some (c.toNat - 'a'.toNat + 10)
  else if 'A' ≤ c ∧ c ≤ 'F' then some (c.toNat - 'A'.toNat + 10)
  else none

end OctetMachine.Numeral

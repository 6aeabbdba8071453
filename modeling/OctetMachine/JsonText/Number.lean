import OctetMachine.Binary64

/-!
# JSON numbers

A number is kept as it is written: its sign, its digits and its exponent. It names a natural number
if it has neither sign nor fraction nor exponent. A number from the end of the 64-bit floating-point
range on is no number at all; for this test its digits count as long as they fit in a 64-bit word.
-/

namespace OctetMachine.JsonText

/-- A number as written; the digits are decimal. -/
structure Number where
  negative : Bool := false
  whole : List Char
  fraction : Option (List Char) := none
  exponent : Option Int := none
  deriving DecidableEq

namespace Number

def digitValue (d : Char) : Nat := d.toNat - '0'.toNat

/-- The natural number that is named, if there is one. -/
def natural? (x : Number) : Option Nat :=
  if x.negative || x.fraction.isSome || x.exponent.isSome then none
  else some (Nat.ofDigitChars 10 x.whole 0)

/-- Digits that count, and the power of ten that they are scaled by. -/
structure Scaled where
  significand : Nat := 0
  scale : Int := 0

/-- Takes the digits of the whole part. The first that does not fit in a word, and those behind it,
only scale what stands before them. -/
def Scaled.takeWhole (s : Scaled) : List Char → Scaled
  | [] => s
  | d :: rest =>
    let next := 10 * s.significand + digitValue d
    if next < UInt64.size then Scaled.takeWhole { s with significand := next } rest
    else { s with scale := s.scale + (d :: rest).length }

/-- Takes the digits of the fraction, up to the first that does not fit in a word. -/
def Scaled.takeFraction (s : Scaled) : List Char → Scaled
  | [] => s
  | d :: rest =>
    let next := 10 * s.significand + digitValue d
    if next < UInt64.size then
      Scaled.takeFraction { significand := next, scale := s.scale - 1 } rest
    else s

def scaled (x : Number) : Scaled :=
  let s := (Scaled.takeWhole {} x.whole).takeFraction (x.fraction.getD [])
  { s with scale := s.scale + x.exponent.getD 0 }

/-- Whether the size of the number lies beyond the floating-point range. -/
def isTooLarge (x : Number) : Bool :=
  let s := x.scaled
  s.significand ≠ 0 && 0 ≤ s.scale &&
    (308 < s.scale || Binary64.overflow ≤
      Binary64.mul (Binary64.ofNat s.significand) (Binary64.ofNat (Nat.pow 10 s.scale.toNat)))

example : ({ whole := ['1'], exponent := some 308 } : Number).isTooLarge = false := by
  decide +kernel

example : ({ whole := ['2'], exponent := some 308 } : Number).isTooLarge = true := by decide +kernel

end Number

end OctetMachine.JsonText

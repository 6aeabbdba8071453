/-!
# Rounded ratios

Percentages and the range of decimal numbers follow binary floating point with 53 significant bits
and ties to even. The values here are exact rationals and each operation rounds its exact result
once, so no hardware arithmetic is involved. Exponents are unbounded; a value from `overflow` on has
none of the 64-bit format.
-/

namespace OctetMachine.Binary64

/-- The integer nearest to `num / den`, of two the even one. -/
def nearestNat (num den : Nat) : Nat :=
  let low := num / den
  let twice := 2 * (num % den)
  if twice < den then low else if den < twice then low + 1 else low + low % 2

/-- The largest exponent whose power of two does not exceed the positive ratio `num / den`. -/
def log2Ratio (num den : Nat) : Int :=
  let guess : Int := (num.log2 : Int) - den.log2
  if den <<< guess.toNat ≤ num <<< (-guess).toNat then guess else guess - 1

/-- The nearest ratio with 53 significant bits, of two the one whose last bit is zero. -/
def round (x : Rat) : Rat :=
  if x.num ≤ 0 then 0 else
    let shift := 52 - log2Ratio x.num.toNat x.den
    let mantissa := nearestNat (x.num.toNat <<< shift.toNat) (x.den <<< (-shift).toNat)
    mkRat (mantissa <<< (-shift).toNat) (1 <<< shift.toNat)

/-- The least value that is beyond the format. -/
def overflow : Rat := mkRat (1 <<< 1024) 1

def ofNat (n : Nat) : Rat := round n

def mul (x y : Rat) : Rat := round (x * y)

def div (x y : Rat) : Rat := round (x / y)

example : nearestNat 5 2 = 2 ∧ nearestNat 7 2 = 4 ∧ nearestNat 8 3 = 3 := by decide

example : ofNat (2 ^ 53 + 1) = 2 ^ 53 ∧ ofNat (2 ^ 53 + 3) = 2 ^ 53 + 4 := by decide +kernel

end OctetMachine.Binary64

import ExprLang.Number.Decimal

/-!
# Decimals to binary64

A finite decimal is turned into the nearest binary64 number in exact integer
arithmetic; of two nearest ones the one with the even significand is taken.
Magnitudes beyond the largest finite number become infinity and those below
half of the smallest one become zero.
-/

namespace ExprLang.Number.Binary64

def infinityBits : Nat := 0x7ff0000000000000

def roundQuotient (numerator denominator : Nat) : Nat :=
  let quotient := numerator / denominator
  let doubled := 2 * (numerator % denominator)
  if doubled < denominator then quotient
  else if denominator < doubled then quotient + 1
  else quotient + quotient % 2

def roundScaled (numerator denominator : Nat) (exponent : Int) : Nat :=
  roundQuotient (numerator <<< (-exponent).toNat)
    (denominator <<< exponent.toNat)

/-- The greatest exponent `e` with `2 ^ e * denominator ≤ numerator`, both positive. -/
def binaryMagnitude (numerator denominator : Nat) : Int :=
  let guess : Int := (numerator.log2 : Int) - denominator.log2
  if denominator <<< guess.toNat ≤ numerator <<< (-guess).toNat then guess
  else guess - 1

/-- The bits of the number nearest to a positive quotient.  The unit in the
last place of a normal number lies 52 places below its leading bit, and no
unit is below `2 ^ (-1074)`; a significand rounded up to the next power of two
carries into the exponent field. -/
def bitsOfQuotient (numerator denominator : Nat) : Nat :=
  let unit := max (binaryMagnitude numerator denominator - 52) (-1074)
  let field := (unit + 1074).toNat <<< 52
  min (field + roundScaled numerator denominator unit) infinityBits

/-- The bits of the number nearest to a decimal.  Decimals far outside the
range are settled by their number of digits alone. -/
def bitsOfDecimal (decimal : Decimal) : Nat :=
  if decimal.significand = 0 then 0
  else
    let magnitude :=
      (Nat.toDigits 10 decimal.significand).length + decimal.exponent
    if magnitude > 400 then infinityBits
    else if magnitude < -400 then 0
    else
      bitsOfQuotient (decimal.significand * Nat.pow 10 decimal.exponent.toNat)
        (Nat.pow 10 (-decimal.exponent).toNat)

end ExprLang.Number.Binary64

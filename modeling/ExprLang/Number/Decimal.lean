/-!
# Decimal numbers

The values of digit sequences, and numbers with a power of ten.
-/

namespace ExprLang.Number

structure Decimal where
  significand : Nat
  exponent : Int
  deriving DecidableEq, Repr

def natValue (digits : List Char) : Nat := Nat.ofDigitChars 10 digits 0

def signedValue : List Char → Int
  | '-' :: digits => -(natValue digits : Int)
  | digits => natValue digits

/-- The greatest number of digits, leading zeros included, from which an
integer is read and in which it is written. -/
def digitLimit : Nat := 4300

def isWithinLimit (number : Int) : Bool :=
  (Nat.toDigits 10 number.natAbs).length ≤ digitLimit

end ExprLang.Number

import ExprLang.Number.Decimal

/-!
# Integers in text

An integer is written as decimal digits of any script, in which single
underscores may stand between two digits, after an optional sign.  Blanks
around it do not count.  Texts with more digits than the limit are refused.
-/

namespace ExprLang.Text

/-- The code points of the digit zero, each followed by the digits one to nine
(Unicode category Nd, version 14). -/
def zeroDigits : List Nat := [
  0x30, 0x660, 0x6f0, 0x7c0, 0x966, 0x9e6, 0xa66, 0xae6, 0xb66, 0xbe6, 0xc66,
  0xce6, 0xd66, 0xde6, 0xe50, 0xed0, 0xf20, 0x1040, 0x1090, 0x17e0, 0x1810,
  0x1946, 0x19d0, 0x1a80, 0x1a90, 0x1b50, 0x1bb0, 0x1c40, 0x1c50, 0xa620,
  0xa8d0, 0xa900, 0xa9d0, 0xa9f0, 0xaa50, 0xabf0, 0xff10, 0x104a0, 0x10d30,
  0x11066, 0x110f0, 0x11136, 0x111d0, 0x112f0, 0x11450, 0x114d0, 0x11650,
  0x116c0, 0x11730, 0x118e0, 0x11950, 0x11c50, 0x11d50, 0x11da0, 0x16a60,
  0x16ac0, 0x16b50, 0x1d7ce, 0x1d7d8, 0x1d7e2, 0x1d7ec, 0x1d7f6, 0x1e140,
  0x1e2f0, 0x1e950, 0x1fbf0]

def digitValue? (character : Char) : Option Nat :=
  (zeroDigits.find? fun origin =>
    origin ≤ character.toNat && character.toNat < origin + 10).map fun origin =>
      character.toNat - origin

def isBlankAround (character : Char) : Bool :=
  let code := character.toNat
  (9 ≤ code && code ≤ 13) || code = 0x20 || code = 0x85 || code = 0xa0 ||
    code = 0x1680 || (0x2000 ≤ code && code ≤ 0x200a) || code = 0x2028 ||
    code = 0x2029 || code = 0x202f || code = 0x205f || code = 0x3000

def trimBlanks (text : List Char) : List Char :=
  ((text.dropWhile isBlankAround).reverse.dropWhile isBlankAround).reverse

def digitsAfter? (value : Nat) : List Char → Option Nat
  | [] => some value
  | '_' :: character :: rest => do
      let digit ← digitValue? character
      digitsAfter? (value * 10 + digit) rest
  | character :: rest => do
      let digit ← digitValue? character
      digitsAfter? (value * 10 + digit) rest

def magnitude? (text : List Char) : Option Nat :=
  match text with
  | [] => none
  | first :: rest => do
      let digit ← digitValue? first
      digitsAfter? digit rest

def integer? (text : List Char) : Option Int :=
  if Number.digitLimit < text.countP fun character => (digitValue? character).isSome
  then none
  else
    match trimBlanks text with
    | '-' :: digits => (magnitude? digits).map fun number => -(number : Int)
    | '+' :: digits => (magnitude? digits).map fun number => (number : Int)
    | digits => (magnitude? digits).map fun number => (number : Int)

end ExprLang.Text

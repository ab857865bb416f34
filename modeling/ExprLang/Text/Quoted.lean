import ExprLang.Text.Printable

/-!
# Quoted text

A quoted text stands between two equal quotation marks: single ones, or double
ones when the text holds a single mark and no double one.  The chosen mark and
the backslash are written after a backslash, line feed, carriage return and
tab by their letters, and any other unprintable character by its code point in
two, four or eight hexadecimal digits.
-/

namespace ExprLang.Text

def singleMark : Char := '\x27'

def doubleMark : Char := '\x22'

def quotationMark (text : List Char) : Char :=
  if singleMark ∈ text ∧ doubleMark ∉ text then doubleMark else singleMark

def hexDigits (width number : Nat) : List Char :=
  let digits := Nat.toDigits 16 number
  List.replicate (width - digits.length) '0' ++ digits

def escapeCode (code : Nat) : List Char :=
  if code ≤ 0xff then '\\' :: 'x' :: hexDigits 2 code
  else if code ≤ 0xffff then '\\' :: 'u' :: hexDigits 4 code
  else '\\' :: 'U' :: hexDigits 8 code

def escapeChar (mark character : Char) : List Char :=
  if character = mark ∨ character = '\\' then ['\\', character]
  else if character = '\n' then ['\\', 'n']
  else if character = '\r' then ['\\', 'r']
  else if character = '\t' then ['\\', 't']
  else if isPrintable character then [character]
  else escapeCode character.toNat

def quoted (text : String) : String :=
  let mark := quotationMark text.toList
  String.ofList (mark :: text.toList.flatMap (escapeChar mark) ++ [mark])

end ExprLang.Text

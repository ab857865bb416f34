import ExprLang.Corpus.Draws

/-!
# The Mersenne Twister

The generator MT19937 over 624 words of 32 bits, seeded by the words of a
number.  A number below a bound is the first of the drawn numbers of as many
bits that lies below it; a fraction joins the upper bits of two words.
-/

namespace ExprLang.Corpus

structure MersenneTwister where
  words : Array UInt32
  index : Nat
  deriving DecidableEq, Repr

namespace MersenneTwister

def wordCount : Nat := 624

def middle : Nat := 397

def word (words : Array UInt32) (index : Nat) : UInt32 := words.getD index 0

def folded (value : UInt32) : UInt32 := value ^^^ (value >>> 30)

/-! ## Seeding -/

def filled (start : UInt32) : Array UInt32 :=
  (List.range (wordCount - 1)).foldl
    (fun words index =>
      words.push
        (1812433253 * folded (word words index) + UInt32.ofNat (index + 1)))
    #[start]

structure Stirring where
  words : Array UInt32
  place : Nat

def Stirring.put (stirring : Stirring) (value : UInt32) : Stirring :=
  let words := stirring.words.setIfInBounds stirring.place value
  if stirring.place + 1 < wordCount then ⟨words, stirring.place + 1⟩
  else ⟨words.setIfInBounds 0 (word words (wordCount - 1)), 1⟩

def Stirring.mixed (stirring : Stirring) (factor : UInt32) : UInt32 :=
  word stirring.words stirring.place ^^^
    (folded (word stirring.words (stirring.place - 1)) * factor)

def absorb (key : Array UInt32) (words : Array UInt32) : Stirring :=
  (List.range (max wordCount key.size)).foldl
    (fun stirring step =>
      let place := step % key.size
      stirring.put
        (stirring.mixed 1664525 + word key place + UInt32.ofNat place))
    ⟨words, 1⟩

def settle (stirring : Stirring) : Stirring :=
  (List.range (wordCount - 1)).foldl
    (fun stirring _ =>
      stirring.put
        (stirring.mixed 1566083941 - UInt32.ofNat stirring.place))
    stirring

def keyWords (number : Nat) : List UInt32 :=
  if number < 0x100000000 then [UInt32.ofNat number]
  else UInt32.ofNat (number % 0x100000000) :: keyWords (number / 0x100000000)
termination_by number
decreasing_by exact Nat.div_lt_self (by omega) (by decide)

def ofSeed (seed : Int) : MersenneTwister :=
  let key := (keyWords seed.natAbs).toArray
  let stirred := settle (absorb key (filled 19650218))
  ⟨stirred.words.setIfInBounds 0 0x80000000, wordCount⟩

/-! ## Drawing -/

def twisted (words : Array UInt32) (place : Nat) : UInt32 :=
  let joined :=
    (word words place &&& 0x80000000) |||
      (word words ((place + 1) % wordCount) &&& 0x7fffffff)
  word words ((place + middle) % wordCount) ^^^ (joined >>> 1) ^^^
    (if joined &&& 1 = 1 then 0x9908b0df else 0)

def renewed (words : Array UInt32) : Array UInt32 :=
  (List.range wordCount).foldl
    (fun words place => words.setIfInBounds place (twisted words place)) words

def tempered (value : UInt32) : UInt32 :=
  let first := value ^^^ (value >>> 11)
  let second := first ^^^ ((first <<< 7) &&& 0x9d2c5680)
  let third := second ^^^ ((second <<< 15) &&& 0xefc60000)
  third ^^^ (third >>> 18)

def next (twister : MersenneTwister) : UInt32 × MersenneTwister :=
  let ready : MersenneTwister :=
    if twister.index < wordCount then twister
    else ⟨renewed twister.words, 0⟩
  (tempered (word ready.words ready.index), ⟨ready.words, ready.index + 1⟩)

/-- Draws that are refused in a row before zero is taken instead.  More than
half of all draws are accepted, so the limit is out of reach in practice. -/
def patience : Nat := 4096

def below (bound : Nat) (positive : 0 < bound) (patience : Nat)
    (twister : MersenneTwister) : Fin bound × MersenneTwister :=
  match patience with
  | 0 => (⟨0, positive⟩, twister)
  | patience + 1 =>
      let drawn := twister.next
      let bits := bound.log2 + 1
      let candidate := drawn.1.toNat >>> (32 - bits)
      if accepted : candidate < bound then (⟨candidate, accepted⟩, drawn.2)
      else below bound positive patience drawn.2

def fraction (twister : MersenneTwister) : Fraction × MersenneTwister :=
  let upper := twister.next
  let lower := upper.2.next
  (Fin.ofNat 0x20000000000000
    ((upper.1 >>> 5).toNat * 0x4000000 + (lower.1 >>> 6).toNat), lower.2)

def draws : DrawSource MersenneTwister where
  below bound positive twister := below bound positive patience twister
  fraction := fraction

end MersenneTwister

end ExprLang.Corpus

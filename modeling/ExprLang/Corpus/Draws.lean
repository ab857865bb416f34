/-!
# Draws

Generators take their choices from a `DrawSource`, which is known only to keep
within the ranges asked for.  What holds of a generated text for every source
therefore holds for every seed.
-/

namespace ExprLang.Corpus

/-- Fractions of one in units of `2 ^ (-53)`. -/
abbrev Fraction := Fin 0x20000000000000

/-- A supply of numbers below a bound and of fractions of one. -/
structure DrawSource (State : Type) where
  below : (bound : Nat) → 0 < bound → State → Fin bound × State
  fraction : State → Fraction × State

abbrev Generator (State α : Type) := DrawSource State → StateM State α

namespace Generator

def below (bound : Nat) (positive : 0 < bound) : Generator State (Fin bound) :=
  fun source => source.below bound positive

def fraction : Generator State Fraction := fun source => source.fraction

def oneOf (items : List α) (nonempty : 0 < items.length) : Generator State α :=
  fun source => do
    let position ← below items.length nonempty source
    pure (items.get position)

def between (low : Int) (count : Nat) (positive : 0 < count) :
    Generator State Int :=
  fun source => do
    let step ← below count positive source
    pure (low + (step.val : Int))

def chance (threshold : Nat) : Generator State Bool := fun source => do
  let drawn ← fraction source
  pure (drawn.val < threshold)

def times (count : Nat) (generator : Generator State α) :
    Generator State (List α) :=
  fun source =>
    match count with
    | 0 => pure []
    | count + 1 => do
        let first ← generator source
        let others ← times count generator source
        pure (first :: others)

end Generator

end ExprLang.Corpus

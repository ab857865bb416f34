import ExprLang.Proofs.Layout.HandBuilt
import ExprLang.Proofs.Lexicon.CarriageReturns
import Mathlib.Algebra.Group.Int.Defs
import Mathlib.Algebra.Group.Nat.Defs

/-!
# Powers as programs

There is no operator for powers, so a number is multiplied by itself again and
again, in parentheses.  The value soon has more digits than any limit allows,
while the source is without faults and hardly nested.
-/

namespace ExprLang

open Lexicon

def timesSign : Operator :=
  Operator.respelled ⟨.multiply, ⟨.star, "*", Span.nowhere, .absent⟩⟩

namespace Node

/-- A number, squared as often as the depth says. -/
def power (base : Int) : Nat → Node
  | 0 => .number base
  | depth + 1 =>
      .parenthesized (.binary (power base depth) timesSign (power base depth))

section

variable {base : Int}

end

end Node

/-! ## Programs -/

section

variable {base : Int}

end

end ExprLang

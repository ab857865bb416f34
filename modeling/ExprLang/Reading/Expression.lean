import ExprLang.Diagnostic
import ExprLang.Tree

/-!
# Reading expressions

Expressions are read from the tokens that are left before the terminal token of
a sequence; once none are left, the terminal token is found again and again.
Reading never fails: a token other than the required one is taken in its place,
and an expression that cannot begin becomes an error node, with one fault each.

Operators are read by precedence climbing.  The right operand of an operator
takes every operator that binds at least as tightly, so chains of equal
precedence group to the right.
-/

namespace ExprLang

/-- What reading yields: a value, the faults in the order found, and the number
of tokens taken, the terminal token counted each time it is taken. -/
structure Reading (α : Type) where
  value : α
  faults : List Fault
  taken : Nat
  deriving DecidableEq, Repr

namespace Reading

def expect (terminal : Token) (required : TokenKind) (tokens : List Token) :
    Reading Token :=
  let found := tokens.headD terminal
  ⟨found, if found.kind = required then [] else
    [.unexpectedToken required found], 1⟩

/-- Dropping tokens lengthens nothing; the levels order the calls that drop none. -/
theorem drop_measure_lt (tokens : List Token) (count : Nat) {level next : Nat}
    (h : next < level) :
    3 * (tokens.drop count).length + next < 3 * tokens.length + level := by
  simp only [List.length_drop]
  omega

theorem tail_measure_lt (token : Token) (rest : List Token) (count level : Nat)
    {next : Nat} (h : next < 3) :
    3 * (rest.drop count).length + next <
      3 * (token :: rest).length + level := by
  simp only [List.length_drop, List.length_cons]
  omega

mutual

/-- One operand.  A semicolon is left to the statement that it ends. -/
def operand (terminal : Token) (tokens : List Token) : Reading Node :=
  match tokens with
  | [] => ⟨.error terminal.span, [.expectedExpression terminal], 1⟩
  | token :: rest =>
      match token.kind with
      | .semicolon => ⟨.error token.span, [.expectedExpression token], 0⟩
      | .integerLiteral => ⟨.number token.number, [], 1⟩
      | .leftParen =>
          let inner := expression terminal 0 rest
          let closing :=
            expect terminal .rightParen (rest.drop inner.taken)
          ⟨.parenthesized inner.value, inner.faults ++ closing.faults,
            1 + inner.taken + closing.taken⟩
      | .identifier => ⟨.reference token, [], 1⟩
      | _ => ⟨.error token.span, [.expectedExpression token], 1⟩
termination_by 3 * tokens.length + 0
decreasing_by exact tail_measure_lt token rest 0 0 (by decide)

def expression (terminal : Token) (least : Int) (tokens : List Token) :
    Reading Node :=
  let first := operand terminal tokens
  let whole :=
    continuation terminal least first.value (tokens.drop first.taken)
  ⟨whole.value, first.faults ++ whole.faults, first.taken + whole.taken⟩
termination_by 3 * tokens.length + 2
decreasing_by
  · exact drop_measure_lt tokens 0 (by decide)
  · exact drop_measure_lt tokens _ (by decide)

def continuation (terminal : Token) (least : Int) (left : Node)
    (tokens : List Token) : Reading Node :=
  match tokens with
  | [] => ⟨left, [], 0⟩
  | token :: rest =>
      match Operator.ofToken? token with
      | none => ⟨left, [], 0⟩
      | some operator =>
          if operator.precedence < least then ⟨left, [], 0⟩
          else
            let right := expression terminal operator.precedence rest
            let whole :=
              continuation terminal least
                (.binary left operator right.value) (rest.drop right.taken)
            ⟨whole.value, right.faults ++ whole.faults,
              1 + right.taken + whole.taken⟩
termination_by 3 * tokens.length + 1
decreasing_by
  · exact tail_measure_lt token rest 0 1 (by decide)
  · exact tail_measure_lt token rest _ 1 (by decide)

end

end Reading

end ExprLang

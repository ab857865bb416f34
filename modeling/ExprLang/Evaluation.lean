import ExprLang.Tree

/-!
# Evaluation

Integer arithmetic over trees.  The evaluator has no storage for variables, so
assignments and references are refused, as are error nodes.  Results pass from
node to node through the last value computed; every statement adds one value.
What was computed before a refusal stays in the state.
-/

namespace ExprLang

def truncatedQuotient (dividend divisor : Int) : Int :=
  let magnitude : Int := (dividend.natAbs / divisor.natAbs : Nat)
  if dividend < 0 ↔ divisor < 0 then magnitude else -magnitude

def truncatedRemainder (dividend divisor : Int) : Int :=
  dividend - divisor * truncatedQuotient dividend divisor

def OperatorKind.apply? (kind : OperatorKind) (left right : Int) :
    Option Int :=
  match kind with
  | .plus => some (left + right)
  | .minus => some (left - right)
  | .multiply => some (left * right)
  | .divide =>
      if right = 0 then none else some (truncatedQuotient left right)
  | .mod =>
      if right = 0 then none else some (truncatedRemainder left right)

/-! ## Refusals -/

inductive Refusal where
  | divisionByZero (operator : Token)
  | assignment (identifier : Token)
  | reference (identifier : Token)
  | errorNode (span : Span)
  | noValue
  | misplaced (cause : Misplaced)
  deriving DecidableEq, Repr

/-- What is said about a refusal: where it arose, what is wrong, and what helps. -/
structure Explanation where
  span : Option Span
  message : String
  hint : Option String
  deriving DecidableEq, Repr

/-- The explanation in one text.  An empty hint is left out. -/
def Explanation.text (explanation : Explanation) : String :=
  let place :=
    match explanation.span with
    | none => ""
    | some span => span.bounds ++ ": "
  let advice :=
    match explanation.hint with
    | none => ""
    | some hint => if hint = "" then "" else "\nhint: " ++ hint
  place ++ explanation.message ++ advice

def noStorageHint : String := "the evaluator has no variable storage"

def Refusal.explanation : Refusal → Explanation
  | divisionByZero operator => ⟨some operator.span, "division by zero", none⟩
  | assignment identifier =>
      ⟨some identifier.span,
        "cannot evaluate assignment to " ++ Text.quoted identifier.lexeme,
        some noStorageHint⟩
  | reference identifier =>
      ⟨some identifier.span,
        "cannot evaluate variable " ++ Text.quoted identifier.lexeme,
        some noStorageHint⟩
  | errorNode span =>
      ⟨some span, "cannot evaluate an expression that failed to parse",
        some "check the diagnostics before evaluating"⟩
  | noValue => ⟨none, "expression produced no value", none⟩
  | misplaced cause => ⟨none, cause.message, none⟩

/-! ## The evaluator -/

structure Evaluator where
  lastValue : Option Int
  values : List Int
  deriving DecidableEq, Repr

namespace Evaluator

abbrev Action := EStateM Refusal Evaluator

def initial : Evaluator := ⟨none, []⟩

def remember (number : Int) : Action Unit :=
  modify fun state => { state with lastValue := some number }

def take : Action Int := do
  match (← get).lastValue with
  | some number => pure number
  | none => throw .noValue

def record : Action Unit := do
  let number ← take
  modify fun state => { state with values := state.values ++ [number] }

def expression : Node → Action Unit
  | .number number => remember number
  | .binary left operator right => do
      expression left
      let first ← take
      expression right
      let second ← take
      match operator.kind.apply? first second with
      | some result => remember result
      | none => throw (.divisionByZero operator.token)
  | .parenthesized inner => expression inner
  | .reference identifier => throw (.reference identifier)
  | .error span => throw (.errorNode span)
  | .expressionStatement inner =>
      throw (.misplaced (.expression (.expressionStatement inner)))
  | .assignStatement identifier initializer =>
      throw (.misplaced (.expression (.assignStatement identifier initializer)))

def statement : Node → Action Unit
  | .expressionStatement body => do
      expression body
      record
  | .assignStatement identifier _ => throw (.assignment identifier)
  | other => throw (.misplaced (.statement other))

def statements : List Node → Action Unit
  | [] => pure ()
  | first :: others => do
      statement first
      statements others

end Evaluator

def evaluate (statements : List Node) : Except Refusal (List Int) :=
  match Evaluator.statements statements Evaluator.initial with
  | .ok _ state => .ok state.values
  | .error refusal _ => .error refusal

end ExprLang

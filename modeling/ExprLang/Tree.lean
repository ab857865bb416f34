import ExprLang.Number.Decimal
import ExprLang.Token

/-!
# Trees

One type of node serves statements and expressions, because a tree built by
hand may hold a node at a place where it has no meaning.  `IsExpression` and
`IsStatement` describe the trees in which every node stands where it belongs.
A tree is shown only if its numbers can be written.
-/

namespace ExprLang

inductive OperatorKind where
  | plus
  | minus
  | multiply
  | divide
  | mod
  deriving DecidableEq, Repr

namespace OperatorKind

def name : OperatorKind → String
  | plus => "Plus"
  | minus => "Minus"
  | multiply => "Multiply"
  | divide => "Divide"
  | mod => "Mod"

def all : List OperatorKind := [plus, minus, multiply, divide, mod]

def ofName? (name : String) : Option OperatorKind :=
  all.find? fun kind => kind.name == name

def ofTokenKind? : TokenKind → Option OperatorKind
  | .plus => some plus
  | .minus => some minus
  | .star => some multiply
  | .slash => some divide
  | .percent => some mod
  | _ => none

def precedence : OperatorKind → Nat
  | plus => 3
  | minus => 3
  | multiply => 4
  | divide => 4
  | mod => 4

theorem ofName?_name (kind : OperatorKind) : ofName? kind.name = some kind := by
  cases kind <;> decide

end OperatorKind

structure Operator where
  kind : OperatorKind
  token : Token
  deriving DecidableEq, Repr

namespace Operator

def precedence (operator : Operator) : Nat := operator.kind.precedence

def symbol (operator : Operator) : String := operator.token.lexeme

def ofToken? (token : Token) : Option Operator :=
  (OperatorKind.ofTokenKind? token.kind).map fun kind => ⟨kind, token⟩

end Operator

inductive Node where
  | expressionStatement (expression : Node)
  | assignStatement (identifier : Token) (initializer : Node)
  | number (value : Int)
  | binary (left : Node) (operator : Operator) (right : Node)
  | parenthesized (expression : Node)
  | reference (identifier : Token)
  | error (span : Span)
  deriving DecidableEq, Repr

namespace Node

def sort : Node → String
  | expressionStatement _ => "ExpressionStatement"
  | assignStatement _ _ => "AssignStatement"
  | number _ => "NumberExpression"
  | binary _ _ _ => "BinaryExpression"
  | parenthesized _ => "ParenthesizedExpression"
  | reference _ => "VariableExpression"
  | error _ => "ErrorExpression"

def IsExpression : Node → Prop
  | expressionStatement _ => False
  | assignStatement _ _ => False
  | number _ => True
  | binary left _ right => left.IsExpression ∧ right.IsExpression
  | parenthesized expression => expression.IsExpression
  | reference _ => True
  | error _ => True

def IsStatement : Node → Prop
  | expressionStatement expression => expression.IsExpression
  | assignStatement _ initializer => initializer.IsExpression
  | _ => False

def numbersWithinLimit : Node → Bool
  | expressionStatement expression => expression.numbersWithinLimit
  | assignStatement _ initializer => initializer.numbersWithinLimit
  | number value => Number.isWithinLimit value
  | binary left _ right => left.numbersWithinLimit && right.numbersWithinLimit
  | parenthesized expression => expression.numbersWithinLimit
  | reference _ => true
  | error _ => true

def preorder (depth : Nat) (node : Node) : List (Nat × Node) :=
  (depth, node) ::
    match node with
    | expressionStatement expression => expression.preorder (depth + 1)
    | assignStatement _ initializer => initializer.preorder (depth + 1)
    | binary left _ right =>
        left.preorder (depth + 1) ++ right.preorder (depth + 1)
    | parenthesized expression => expression.preorder (depth + 1)
    | number _ => []
    | reference _ => []
    | error _ => []

end Node

inductive Misplaced where
  | statement (found : Node)
  | expression (found : Node)
  deriving DecidableEq, Repr

def Misplaced.message : Misplaced → String
  | statement found => "not a statement: " ++ found.sort
  | expression found => "not an expression: " ++ found.sort

/-! ## Showing trees -/

inductive Unshown where
  | misplaced (cause : Misplaced)
  | tooLong
  deriving DecidableEq, Repr

def Unshown.message : Unshown → String
  | misplaced cause => cause.message
  | tooLong =>
      "Exceeds the limit (" ++ toString Number.digitLimit ++
        " digits) for integer string conversion"

def numberText (number : Int) : Except Unshown String :=
  if Number.isWithinLimit number then pure (toString number)
  else throw .tooLong

theorem numberText_of_within {number : Int}
    (h : Number.isWithinLimit number = true) :
    numberText number = .ok (toString number) := if_pos h

theorem numberText_of_long {number : Int}
    (h : Number.isWithinLimit number = false) :
    numberText number = .error .tooLong := by
  rw [numberText, h]
  rfl

end ExprLang

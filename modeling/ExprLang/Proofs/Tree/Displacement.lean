import ExprLang.Proofs.Reading.Correspondence

/-!
# Trees moved along a text

A part of a text that stands further on has the same tokens at shifted spans.
Reading them gives the same trees at shifted spans, and these have the same
values or are refused for the same reason at a shifted span.
-/

namespace ExprLang

/-! ## Shifted spans -/

def Span.shifted (distance : Nat) (span : Span) : Span :=
  ⟨span.start + distance, span.stop + distance, span.literal,
    Int.add_le_add_right span.ordered distance⟩

def Token.shifted (distance : Nat) (token : Token) : Token :=
  { token with span := token.span.shifted distance }

def Operator.shifted (distance : Nat) (operator : Operator) : Operator :=
  { operator with token := operator.token.shifted distance }

def Fault.shifted (distance : Nat) : Fault → Fault
  | .unknownToken span => .unknownToken (span.shifted distance)
  | .unexpectedToken required found =>
      .unexpectedToken required (found.shifted distance)
  | .expectedExpression found => .expectedExpression (found.shifted distance)

namespace Node

def shifted (distance : Nat) : Node → Node
  | expressionStatement body => .expressionStatement (body.shifted distance)
  | assignStatement identifier initializer =>
      .assignStatement (identifier.shifted distance)
        (initializer.shifted distance)
  | number value => .number value
  | binary left operator right =>
      .binary (left.shifted distance) (operator.shifted distance)
        (right.shifted distance)
  | parenthesized inner => .parenthesized (inner.shifted distance)
  | reference identifier => .reference (identifier.shifted distance)
  | error span => .error (span.shifted distance)

end Node

def Misplaced.shifted (distance : Nat) : Misplaced → Misplaced
  | .statement found => .statement (found.shifted distance)
  | .expression found => .expression (found.shifted distance)

def Refusal.shifted (distance : Nat) : Refusal → Refusal
  | .divisionByZero operator => .divisionByZero (operator.shifted distance)
  | .assignment identifier => .assignment (identifier.shifted distance)
  | .reference identifier => .reference (identifier.shifted distance)
  | .errorNode span => .errorNode (span.shifted distance)
  | .noValue => .noValue
  | .misplaced cause => .misplaced (cause.shifted distance)

@[simp] theorem Node.sort_shifted (distance : Nat) (node : Node) :
    (node.shifted distance).sort = node.sort := by
  cases node <;> rfl

theorem Misplaced.message_shifted (distance : Nat) (cause : Misplaced) :
    (cause.shifted distance).message = cause.message := by
  cases cause with
  | statement found =>
      exact congrArg ("not a statement: " ++ ·) (found.sort_shifted distance)
  | expression found =>
      exact congrArg ("not an expression: " ++ ·) (found.sort_shifted distance)

theorem Refusal.explanation_shifted (distance : Nat) (refusal : Refusal) :
    (refusal.shifted distance).explanation =
      { refusal.explanation with
        span := refusal.explanation.span.map (Span.shifted distance) } := by
  cases refusal with
  | misplaced cause =>
      simp only [shifted, explanation, cause.message_shifted, Option.map_none]
  | _ => rfl

/-! ## Reading shifted tokens -/

section

variable {distance : Nat}

theorem Node.Corresponds.eq_shifted {node other : Node}
    (h : node.Corresponds (fun token token' => token.shifted distance = token')
      other) :
    node.shifted distance = other := by
  induction h with
  | number value => rfl
  | reference hidentifier => rw [shifted, hidentifier]
  | error htoken => rw [shifted, ← htoken, Token.shifted]
  | parenthesized _ ih => rw [shifted, ih]
  | @binary left right left' right' operator operator' _ hkind htoken _ ihLeft
      ihRight =>
      have hoperator : operator.shifted distance = operator' := by
        rw [Operator.shifted, htoken, hkind]
      rw [shifted, ihLeft, ihRight, hoperator]

theorem Node.StatementCorresponds.eq_shifted {node other : Node}
    (h : node.StatementCorresponds
      (fun token token' => token.shifted distance = token') other) :
    node.shifted distance = other := by
  cases h with
  | expression hbody => rw [shifted, hbody.eq_shifted]
  | assignment hidentifier hinitializer =>
      rw [shifted, hidentifier, hinitializer.eq_shifted]

theorem Fault.Corresponds.eq_shifted {fault other : Fault}
    (h : fault.Corresponds (fun token token' => token.shifted distance = token')
      other) :
    fault.shifted distance = other := by
  cases h with
  | unexpectedToken required hfound => rw [shifted, hfound]
  | expectedExpression hfound => rw [shifted, hfound]

end

theorem Reading.statements_shifted (distance : Nat) (terminal : Token)
    (tokens : List Token) :
    statements (terminal.shifted distance)
        (tokens.map (Token.shifted distance)) =
      ⟨(statements terminal tokens).value.map (Node.shifted distance),
        (statements terminal tokens).faults.map (Fault.shifted distance),
        (statements terminal tokens).taken⟩ := by
  have hsame : ∀ token other : Token, token.shifted distance = other →
      token.unplaced = other.unplaced := by
    rintro token _ rfl
    rfl
  have htokens : List.Forall₂ (fun token other => token.shifted distance = other)
      tokens (tokens.map (Token.shifted distance)) := by
    rw [List.forall₂_map_right_iff, List.forall₂_same]
    exact fun _ _ => rfl
  have hread := statements_corresponds hsame (rfl : terminal.shifted distance = _)
    htokens
  have hvalue := hread.value.imp fun _ _ h => h.eq_shifted
  have hfaults := hread.faults.imp fun _ _ h => h.eq_shifted
  rw [← List.forall₂_map_left_iff (R := Eq), List.forall₂_eq_eq_eq] at hvalue hfaults
  rw [hvalue, hfaults, hread.taken]

/-! ## Evaluating shifted trees -/

namespace Node

theorem meaning_shifted (distance : Nat) (node : Node) :
    (node.shifted distance).meaning =
      node.meaning.mapError (Refusal.shifted distance) := by
  induction node with
  | binary left operator right ihLeft ihRight =>
      rw [shifted, meaning, meaning, ihLeft, ihRight]
      cases left.meaning with
      | error refusal => rfl
      | ok first =>
          cases right.meaning with
          | error refusal => rfl
          | ok second =>
              simp only [bind, Except.bind, Except.mapError, Operator.shifted]
              cases operator.kind.apply? first second <;> rfl
  | parenthesized inner ih => exact ih
  | _ => rfl

theorem statementMeaning_shifted (distance : Nat) (node : Node) :
    (node.shifted distance).statementMeaning =
      node.statementMeaning.mapError (Refusal.shifted distance) := by
  cases node with
  | expressionStatement body => exact body.meaning_shifted distance
  | _ => rfl

end Node

theorem evaluate_shifted (distance : Nat) (nodes : List Node) :
    evaluate (nodes.map (Node.shifted distance)) =
      (evaluate nodes).mapError (Refusal.shifted distance) := by
  rw [evaluate_eq, evaluate_eq]
  induction nodes with
  | nil => rfl
  | cons node nodes ih =>
      rw [List.map_cons, List.mapM_cons, List.mapM_cons, ih,
        node.statementMeaning_shifted]
      cases node.statementMeaning with
      | error refusal => rfl
      | ok number => cases nodes.mapM Node.statementMeaning <;> rfl

end ExprLang

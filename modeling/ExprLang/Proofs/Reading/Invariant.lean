import ExprLang.Reading.Statement

/-!
# Properties of all readings

Operands, expressions and continuations are read by three functions that call
one another.  `Invariant` names what a property of their results has to
satisfy, one condition for each step that reading can take; a property that
satisfies all of them holds for whatever is read.
-/

namespace ExprLang

namespace Operator

theorem precedence_le_four (operator : Operator) : operator.precedence ≤ 4 := by
  cases hkind : operator.kind <;> simp [precedence, hkind, OperatorKind.precedence]

theorem token_of_ofToken? {token : Token} {operator : Operator}
    (h : ofToken? token = some operator) : operator.token = token := by
  simp only [ofToken?, Option.map_eq_some_iff] at h
  obtain ⟨kind, -, rfl⟩ := h
  rfl

theorem ofToken?_of_kind_eq_none {token : Token} {kind : TokenKind}
    (hkind : token.kind = kind) (h : OperatorKind.ofTokenKind? kind = none) :
    ofToken? token = none := by
  simp [ofToken?, hkind, h]

end Operator

namespace Reading

/-! ## One step at a time -/

section

variable (terminal : Token) {token : Token} (rest : List Token)

theorem operand_nil :
    operand terminal [] =
      ⟨.error terminal.span, [.expectedExpression terminal], 1⟩ := by
  rw [operand]

theorem operand_of_semicolon (hkind : token.kind = .semicolon) :
    operand terminal (token :: rest) =
      ⟨.error token.span, [.expectedExpression token], 0⟩ := by
  rw [operand]
  simp only [hkind]

theorem operand_of_integer (hkind : token.kind = .integerLiteral) :
    operand terminal (token :: rest) = ⟨.number token.number, [], 1⟩ := by
  rw [operand]
  simp only [hkind]

theorem operand_of_paren (hkind : token.kind = .leftParen) :
    operand terminal (token :: rest) =
      let inner := expression terminal 0 rest
      ⟨.parenthesized inner.value,
        inner.faults ++
          (expect terminal .rightParen (rest.drop inner.taken)).faults,
        1 + inner.taken + 1⟩ := by
  rw [operand]
  simp only [hkind]
  rfl

theorem operand_of_identifier (hkind : token.kind = .identifier) :
    operand terminal (token :: rest) = ⟨.reference token, [], 1⟩ := by
  rw [operand]
  simp only [hkind]

theorem operand_of_other (hsemicolon : token.kind ≠ .semicolon)
    (hinteger : token.kind ≠ .integerLiteral)
    (hparen : token.kind ≠ .leftParen)
    (hidentifier : token.kind ≠ .identifier) :
    operand terminal (token :: rest) =
      ⟨.error token.span, [.expectedExpression token], 1⟩ := by
  rw [operand]
  split
  case h_5 => rfl
  all_goals contradiction

end

def leadingOperator? (tokens : List Token) : Option Operator :=
  tokens.head?.bind Operator.ofToken?

@[simp] theorem leadingOperator?_nil : leadingOperator? [] = none := rfl

@[simp] theorem leadingOperator?_cons (token : Token) (rest : List Token) :
    leadingOperator? (token :: rest) = Operator.ofToken? token := rfl

theorem leadingOperator?_eq_headD {terminal : Token}
    (hterminal : terminal.kind = .endOfText) (tokens : List Token) :
    leadingOperator? tokens = Operator.ofToken? (tokens.headD terminal) := by
  cases tokens with
  | nil => exact (Operator.ofToken?_of_kind_eq_none hterminal rfl).symm
  | cons token rest => rfl

theorem leadingOperator?_cases (tokens : List Token) :
    leadingOperator? tokens = none ∨
      ∃ token rest operator, tokens = token :: rest ∧
        Operator.ofToken? token = some operator := by
  cases tokens with
  | nil => exact .inl rfl
  | cons token rest =>
      cases hoperator : Operator.ofToken? token with
      | none => exact .inl hoperator
      | some operator => exact .inr ⟨token, rest, operator, rfl, hoperator⟩

theorem continuation_of_lt (terminal : Token) {least : Int} (left : Node)
    {tokens : List Token}
    (h : ∀ operator, leadingOperator? tokens = some operator →
      operator.precedence < least) :
    continuation terminal least left tokens = ⟨left, [], 0⟩ := by
  cases tokens with
  | nil => rw [continuation]
  | cons token rest =>
      rw [continuation]
      cases hoperator : Operator.ofToken? token with
      | none => rfl
      | some operator => exact if_pos (h operator hoperator)

theorem continuation_of_le (terminal : Token) {least : Int} (left : Node)
    {token : Token} {operator : Operator} (rest : List Token)
    (hoperator : Operator.ofToken? token = some operator)
    (hle : least ≤ operator.precedence) :
    continuation terminal least left (token :: rest) =
      let right := expression terminal operator.precedence rest
      let whole :=
        continuation terminal least (.binary left operator right.value)
          (rest.drop right.taken)
      ⟨whole.value, right.faults ++ whole.faults,
        1 + right.taken + whole.taken⟩ := by
  rw [continuation, hoperator]
  exact if_neg (by omega)

/-! ## All steps together -/

/-- What a property of operands, of expressions and of continuations has to
satisfy so that every reading has it. -/
structure Invariant (terminal : Token)
    (Operand : List Token → Reading Node → Prop)
    (Expression : Int → List Token → Reading Node → Prop)
    (Continuation : Int → Node → List Token → Reading Node → Prop) : Prop where
  ended : Operand [] ⟨.error terminal.span, [.expectedExpression terminal], 1⟩
  semicolon : ∀ token rest, token.kind = .semicolon →
    Operand (token :: rest) ⟨.error token.span, [.expectedExpression token], 0⟩
  integer : ∀ token rest, token.kind = .integerLiteral →
    Operand (token :: rest) ⟨.number token.number, [], 1⟩
  parenthesized : ∀ token rest inner, token.kind = .leftParen →
    Expression 0 rest inner →
    Operand (token :: rest)
      ⟨.parenthesized inner.value,
        inner.faults ++
          (expect terminal .rightParen (rest.drop inner.taken)).faults,
        1 + inner.taken + 1⟩
  identifier : ∀ token rest, token.kind = .identifier →
    Operand (token :: rest) ⟨.reference token, [], 1⟩
  unexpected : ∀ token rest, token.kind ≠ .semicolon →
    token.kind ≠ .integerLiteral → token.kind ≠ .leftParen →
    token.kind ≠ .identifier →
    Operand (token :: rest) ⟨.error token.span, [.expectedExpression token], 1⟩
  continued : ∀ least tokens first whole, Operand tokens first →
    Continuation least first.value (tokens.drop first.taken) whole →
    Expression least tokens
      ⟨whole.value, first.faults ++ whole.faults, first.taken + whole.taken⟩
  finished : ∀ (least : Int) left tokens,
    (∀ operator, leadingOperator? tokens = some operator →
      operator.precedence < least) →
    Continuation least left tokens ⟨left, [], 0⟩
  operated : ∀ (least : Int) left token rest (operator : Operator) right whole,
    Operator.ofToken? token = some operator →
    least ≤ operator.precedence →
    Expression operator.precedence rest right →
    Continuation least (.binary left operator right.value)
      (rest.drop right.taken) whole →
    Continuation least left (token :: rest)
      ⟨whole.value, right.faults ++ whole.faults,
        1 + right.taken + whole.taken⟩

namespace Invariant

variable {terminal : Token} {Operand : List Token → Reading Node → Prop}
  {Expression : Int → List Token → Reading Node → Prop}
  {Continuation : Int → Node → List Token → Reading Node → Prop}

private theorem all (h : Invariant terminal Operand Expression Continuation) :
    (∀ tokens, Operand tokens (Reading.operand terminal tokens)) ∧
    (∀ least tokens,
      Expression least tokens (Reading.expression terminal least tokens)) ∧
    (∀ least left tokens, Continuation least left tokens
      (Reading.continuation terminal least left tokens)) := by
  apply operand.mutual_induct terminal
  · rw [operand_nil]
    exact h.ended
  · intro token rest hkind
    rw [operand_of_semicolon terminal rest hkind]
    exact h.semicolon token rest hkind
  · intro token rest hkind
    rw [operand_of_integer terminal rest hkind]
    exact h.integer token rest hkind
  · intro token rest hkind ih
    rw [operand_of_paren terminal rest hkind]
    exact h.parenthesized token rest _ hkind ih
  · intro token rest hkind
    rw [operand_of_identifier terminal rest hkind]
    exact h.identifier token rest hkind
  · intro token rest hsemicolon hinteger hparen hidentifier
    rw [operand_of_other terminal rest hsemicolon hinteger hparen hidentifier]
    exact h.unexpected token rest hsemicolon hinteger hparen hidentifier
  · intro least tokens first hfirst hwhole
    rw [expression]
    exact h.continued least tokens _ _ hfirst hwhole
  · intro least left
    have hlt : ∀ operator, leadingOperator? [] = some operator →
        (operator.precedence : Int) < least := by simp
    rw [continuation_of_lt terminal left hlt]
    exact h.finished least left [] hlt
  · intro least left token rest hnone
    have hlt : ∀ operator, leadingOperator? (token :: rest) = some operator →
        (operator.precedence : Int) < least := by simp [hnone]
    rw [continuation_of_lt terminal left hlt]
    exact h.finished least left _ hlt
  · intro least left token rest operator hoperator hlt
    have hlt : ∀ operator, leadingOperator? (token :: rest) = some operator →
        (operator.precedence : Int) < least := by simpa [hoperator] using hlt
    rw [continuation_of_lt terminal left hlt]
    exact h.finished least left _ hlt
  · intro least left token rest operator hoperator hle right hright hwhole
    have hle : least ≤ operator.precedence := by omega
    rw [continuation_of_le terminal left rest hoperator hle]
    exact h.operated least left token rest operator _ _ hoperator hle hright
      hwhole

theorem operand (h : Invariant terminal Operand Expression Continuation)
    (tokens : List Token) : Operand tokens (Reading.operand terminal tokens) :=
  h.all.1 tokens

theorem expression (h : Invariant terminal Operand Expression Continuation)
    (least : Int) (tokens : List Token) :
    Expression least tokens (Reading.expression terminal least tokens) :=
  h.all.2.1 least tokens

theorem continuation (h : Invariant terminal Operand Expression Continuation)
    (least : Int) (left : Node) (tokens : List Token) :
    Continuation least left tokens
      (Reading.continuation terminal least left tokens) :=
  h.all.2.2 least left tokens

end Invariant

end Reading

end ExprLang

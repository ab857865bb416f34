import ExprLang.Proofs.Reading.Invariant
import ExprLang.Proofs.Tree.Likeness
import ExprLang.Reading.Statement

/-!
# Reading corresponding tokens

Reading looks at the kinds of tokens and at their values, and never at their
places.  So when two token lists correspond token by token, what is read from
them corresponds: trees of one shape over corresponding tokens, the same faults
at corresponding tokens, and as many tokens taken.
-/

namespace ExprLang

/-! ## Corresponding trees and faults -/

namespace Node

inductive Corresponds (Same : Token → Token → Prop) : Node → Node → Prop
  | number (value : Int) : Corresponds Same (.number value) (.number value)
  | reference {identifier other : Token} (hidentifier : Same identifier other) :
      Corresponds Same (.reference identifier) (.reference other)
  | error {token other : Token} (htoken : Same token other) :
      Corresponds Same (.error token.span) (.error other.span)
  | parenthesized {inner other : Node} (hinner : Corresponds Same inner other) :
      Corresponds Same (.parenthesized inner) (.parenthesized other)
  | binary {left right left' right' : Node} {operator operator' : Operator}
      (hleft : Corresponds Same left left')
      (hkind : operator.kind = operator'.kind)
      (htoken : Same operator.token operator'.token)
      (hright : Corresponds Same right right') :
      Corresponds Same (.binary left operator right)
        (.binary left' operator' right')

inductive StatementCorresponds (Same : Token → Token → Prop) :
    Node → Node → Prop
  | expression {body other : Node} (hbody : Corresponds Same body other) :
      StatementCorresponds Same (.expressionStatement body)
        (.expressionStatement other)
  | assignment {identifier other : Token} {initializer initializer' : Node}
      (hidentifier : Same identifier other)
      (hinitializer : Corresponds Same initializer initializer') :
      StatementCorresponds Same (.assignStatement identifier initializer)
        (.assignStatement other initializer')

variable {Same : Token → Token → Prop} {node other : Node}

theorem Corresponds.alike (h : node.Corresponds Same other)
    (hsame : ∀ token other, Same token other →
      token.unplaced = other.unplaced) : node.Alike other := by
  induction h with
  | number value => exact .number value
  | reference hidentifier => exact .reference (hsame _ _ hidentifier)
  | error htoken => exact .error _ _
  | parenthesized _ ih => exact .parenthesized ih
  | binary _ hkind htoken _ ihLeft ihRight =>
      refine .binary ihLeft ?_ ihRight
      rw [Operator.unplaced, Operator.unplaced, hsame _ _ htoken, hkind]

theorem StatementCorresponds.alike (h : node.StatementCorresponds Same other)
    (hsame : ∀ token other, Same token other →
      token.unplaced = other.unplaced) : node.StatementAlike other := by
  cases h with
  | expression hbody => exact .expression (hbody.alike hsame)
  | assignment hidentifier hinitializer =>
      exact .assignment (hsame _ _ hidentifier) (hinitializer.alike hsame)

end Node

inductive Fault.Corresponds (Same : Token → Token → Prop) : Fault → Fault → Prop
  | unexpectedToken (required : TokenKind) {found other : Token}
      (hfound : Same found other) :
      Corresponds Same (.unexpectedToken required found)
        (.unexpectedToken required other)
  | expectedExpression {found other : Token} (hfound : Same found other) :
      Corresponds Same (.expectedExpression found) (.expectedExpression other)

namespace Fault

variable {Same : Token → Token → Prop} {fault other : Fault}

theorem Corresponds.span (h : fault.Corresponds Same other) :
    ∃ token token', Same token token' ∧ fault.span = token.span ∧
      other.span = token'.span := by
  cases h with
  | unexpectedToken _ hfound => exact ⟨_, _, hfound, rfl, rfl⟩
  | expectedExpression hfound => exact ⟨_, _, hfound, rfl, rfl⟩

theorem Corresponds.message (h : fault.Corresponds Same other)
    (hsame : ∀ token other, Same token other →
      token.unplaced = other.unplaced) : fault.message = other.message := by
  cases h with
  | unexpectedToken required hfound =>
      have hkind := Token.kind_eq_of_unplaced (hsame _ _ hfound)
      exact congrArg (fun kind : TokenKind => "expected <" ++ required.name ++
        ">, found <" ++ kind.name ++ ">") hkind
  | expectedExpression hfound =>
      have hkind := Token.kind_eq_of_unplaced (hsame _ _ hfound)
      exact congrArg (fun kind : TokenKind => "expected expression, found <" ++
        kind.name ++ ">") hkind

end Fault

namespace Reading

structure Corresponds {α : Type} (Same : Token → Token → Prop)
    (Values : α → α → Prop) (reading other : Reading α) : Prop where
  value : Values reading.value other.value
  faults : List.Forall₂ (Fault.Corresponds Same) reading.faults other.faults
  taken : reading.taken = other.taken

section

variable {Same : Token → Token → Prop} {terminal terminal' : Token}
  {tokens others : List Token}

theorem headD_corresponds (hterminal : Same terminal terminal')
    (h : List.Forall₂ Same tokens others) :
    Same (tokens.headD terminal) (others.headD terminal') := by
  cases h with
  | nil => exact hterminal
  | cons htoken _ => exact htoken

variable (hsame : ∀ token other, Same token other →
    token.unplaced = other.unplaced)
  (hterminal : Same terminal terminal')

include hsame hterminal

theorem expect_corresponds (required : TokenKind)
    (h : List.Forall₂ Same tokens others) :
    (expect terminal required tokens).Corresponds Same Same
      (expect terminal' required others) := by
  have hfound := headD_corresponds hterminal h
  have hkind := Token.kind_eq_of_unplaced (hsame _ _ hfound)
  refine ⟨hfound, ?_, rfl⟩
  simp only [expect, hkind]
  split
  · exact .nil
  · exact .cons (.unexpectedToken required hfound) .nil

theorem corresponds_invariant :
    Invariant terminal
      (fun tokens reading => ∀ others, List.Forall₂ Same tokens others →
        reading.Corresponds Same (Node.Corresponds Same)
          (operand terminal' others))
      (fun least tokens reading => ∀ others, List.Forall₂ Same tokens others →
        reading.Corresponds Same (Node.Corresponds Same)
          (expression terminal' least others))
      (fun least left tokens reading => ∀ left' others,
        left.Corresponds Same left' → List.Forall₂ Same tokens others →
          reading.Corresponds Same (Node.Corresponds Same)
            (continuation terminal' least left' others)) where
  ended := by
    rintro _ (_ | _)
    rw [operand_nil]
    exact ⟨.error hterminal, .cons (.expectedExpression hterminal) .nil, rfl⟩
  semicolon := by
    rintro token rest hkind _ (_ | @⟨_, other, _, others, htoken, hothers⟩)
    rw [Token.kind_eq_of_unplaced (hsame _ _ htoken)] at hkind
    rw [operand_of_semicolon terminal' others hkind]
    exact ⟨.error htoken, .cons (.expectedExpression htoken) .nil, rfl⟩
  integer := by
    rintro token rest hkind _ (_ | @⟨_, other, _, others, htoken, hothers⟩)
    have hnumber : token.unplaced.number = other.unplaced.number :=
      congrArg Token.number (hsame _ _ htoken)
    have hvalue : token.number = other.number := hnumber
    rw [Token.kind_eq_of_unplaced (hsame _ _ htoken)] at hkind
    rw [operand_of_integer terminal' others hkind, hvalue]
    exact ⟨.number _, .nil, rfl⟩
  identifier := by
    rintro token rest hkind _ (_ | @⟨_, other, _, others, htoken, hothers⟩)
    rw [Token.kind_eq_of_unplaced (hsame _ _ htoken)] at hkind
    rw [operand_of_identifier terminal' others hkind]
    exact ⟨.reference htoken, .nil, rfl⟩
  unexpected := by
    rintro token rest hsemicolon hinteger hparen hidentifier _
      (_ | @⟨_, other, _, others, htoken, hothers⟩)
    have hkind := Token.kind_eq_of_unplaced (hsame _ _ htoken)
    rw [hkind] at hsemicolon hinteger hparen hidentifier
    rw [operand_of_other terminal' others hsemicolon hinteger hparen hidentifier]
    exact ⟨.error htoken, .cons (.expectedExpression htoken) .nil, rfl⟩
  parenthesized := by
    rintro token rest inner hkind hinner _
      (_ | @⟨_, other, _, others, htoken, hothers⟩)
    rw [Token.kind_eq_of_unplaced (hsame _ _ htoken)] at hkind
    obtain ⟨hvalue, hfaults, htaken⟩ := hinner others hothers
    have hclosing := expect_corresponds hsame hterminal .rightParen
      (List.forall₂_drop inner.taken hothers)
    rw [operand_of_paren terminal' others hkind]
    dsimp only
    rw [← htaken]
    exact ⟨.parenthesized hvalue, List.rel_append hfaults hclosing.faults, rfl⟩
  continued := by
    intro least tokens first whole hfirst hwhole others hothers
    obtain ⟨hleft, hleftFaults, hleftTaken⟩ := hfirst others hothers
    obtain ⟨hvalue, hfaults, htaken⟩ :=
      hwhole _ _ hleft (List.forall₂_drop first.taken hothers)
    rw [expression]
    rw [hleftTaken] at hvalue hfaults htaken ⊢
    exact ⟨hvalue, List.rel_append hleftFaults hfaults, by rw [htaken]⟩
  finished := by
    intro least left tokens hlt left' others hleft hothers
    -- An operator that leads one list leads the other, and binds as loosely.
    have hlt' : ∀ operator, leadingOperator? others = some operator →
        (operator.precedence : Int) < least := by
      intro operator hoperator
      cases hothers with
      | nil => cases hoperator
      | @cons token _ _ _ htoken _ =>
          exact hlt ⟨operator.kind, token⟩ (Operator.ofToken?_of_kind hoperator
            (Token.kind_eq_of_unplaced (hsame _ _ htoken)))
    rw [continuation_of_lt terminal' left' hlt']
    exact ⟨hleft, .nil, rfl⟩
  operated := by
    rintro least left token rest operator right whole hoperator hle hright
      hwhole left' _ hleft (_ | @⟨_, other, _, others, htoken, hothers⟩)
    have hoperator' := Operator.ofToken?_of_kind hoperator
      (Token.kind_eq_of_unplaced (hsame _ _ htoken)).symm
    obtain ⟨hvalue, hfaults, htaken⟩ := hright others hothers
    rw [continuation_of_le terminal' left' others hoperator' hle]
    have hjoined : (Node.binary left operator right.value).Corresponds Same
        (.binary left' ⟨operator.kind, other⟩
          (expression terminal' operator.precedence others).value) := by
      refine .binary hleft rfl ?_ hvalue
      rw [Operator.token_of_ofToken? hoperator]
      exact htoken
    obtain ⟨hwholeValue, hwholeFaults, hwholeTaken⟩ :=
      hwhole _ _ hjoined (List.forall₂_drop right.taken hothers)
    rw [htaken] at hwholeValue hwholeFaults hwholeTaken ⊢
    exact ⟨hwholeValue, List.rel_append hfaults hwholeFaults,
      by rw [hwholeTaken]; rfl⟩

theorem expression_corresponds (least : Int)
    (h : List.Forall₂ Same tokens others) :
    (expression terminal least tokens).Corresponds Same (Node.Corresponds Same)
      (expression terminal' least others) :=
  (corresponds_invariant hsame hterminal).expression least tokens others h

theorem assignment_corresponds (h : List.Forall₂ Same tokens others) :
    (assignment terminal tokens).Corresponds Same
      (Node.StatementCorresponds Same) (assignment terminal' others) := by
  have hsign := expect_corresponds hsame hterminal .assign
    (List.forall₂_drop 1 h)
  obtain ⟨hvalue, hfaults, htaken⟩ :=
    expression_corresponds hsame hterminal 0 (List.forall₂_drop 2 h)
  have hending := expect_corresponds hsame hterminal .semicolon
    (List.forall₂_drop (2 + (expression terminal 0 (tokens.drop 2)).taken) h)
  simp only [assignment]
  rw [← htaken]
  exact ⟨.assignment (headD_corresponds hterminal h) hvalue,
    List.rel_append (List.rel_append hsign.faults hfaults) hending.faults, rfl⟩

theorem expressionStatement_corresponds (h : List.Forall₂ Same tokens others) :
    (expressionStatement terminal tokens).Corresponds Same
      (Node.StatementCorresponds Same) (expressionStatement terminal' others) := by
  obtain ⟨hvalue, hfaults, htaken⟩ :=
    expression_corresponds hsame hterminal 0 h
  have hnext := headD_corresponds hterminal
    (List.forall₂_drop (expression terminal 0 tokens).taken h)
  have hkind := Token.kind_eq_of_unplaced (hsame _ _ hnext)
  simp only [expressionStatement]
  rw [← htaken, hkind]
  exact ⟨.expression hvalue, hfaults, rfl⟩

theorem statement_corresponds (h : List.Forall₂ Same tokens others) :
    (statement terminal tokens).Corresponds Same
      (Node.StatementCorresponds Same) (statement terminal' others) := by
  have hkind := Token.kind_eq_of_unplaced
    (hsame _ _ (headD_corresponds hterminal h))
  rw [statement, statement, hkind]
  split
  · exact assignment_corresponds hsame hterminal h
  · exact expressionStatement_corresponds hsame hterminal h

theorem statements_corresponds (h : List.Forall₂ Same tokens others) :
    (statements terminal tokens).Corresponds Same
      (List.Forall₂ (Node.StatementCorresponds Same))
      (statements terminal' others) := by
  fun_induction statements terminal tokens generalizing others with
  | case1 =>
      cases h
      rw [statements]
      exact ⟨.nil, .nil, rfl⟩
  | case2 token rest hkind =>
      cases h with
      | @cons _ other _ _ htoken _ =>
          rw [Token.kind_eq_of_unplaced (hsame _ _ htoken)] at hkind
          rw [statements, if_pos hkind]
          exact ⟨.nil, .nil, rfl⟩
  | @case3 token rest hkind first following ih =>
      obtain ⟨hvalue, hfaults, htaken⟩ := statement_corresponds hsame hterminal h
      have hothers := ih (List.forall₂_drop first.taken h)
      cases h with
      | @cons _ other _ _ htoken _ =>
          rw [Token.kind_eq_of_unplaced (hsame _ _ htoken)] at hkind
          rw [statements, if_neg hkind]
          dsimp only
          rw [← htaken]
          exact ⟨.cons hvalue hothers.value,
            List.rel_append hfaults hothers.faults,
            congrArg (first.taken + ·) hothers.taken⟩

end

end Reading

end ExprLang

import ExprLang.Proofs.Reading.Grammar
import ExprLang.Proofs.Reading.Progress

/-!
# Resuming after a missing operand

A semicolon at the place of an operand is left to the statement that it ends.
So an expression whose last operator lacks its right operand is read as the tree
that a last operand would complete, with an error node in the place of this
operand, however many operators wait for it (`brokenOff_readsAs`).  There is one
fault, and the tokens after the semicolon are read as if they stood alone
(`Session.resumes_of_statement`).
-/

namespace ExprLang

namespace Grammar

/-- Operands with an operator after each of them; the last operator lacks its
right operand. -/
inductive Unfinished : List Token → Prop
  | nil : Unfinished []
  | chain {first rest : List Token} {token : Token}
      (hfirst : Derives .operand first) (hoperator : token.kind ∈ operators)
      (hrest : Unfinished rest) : Unfinished (first ++ token :: rest)

theorem Unfinished.finish {tokens : List Token} (h : Unfinished tokens)
    {last : Token} (hlast : last.kind = .integerLiteral) :
    Derives .expression (tokens ++ [last]) := by
  induction h with
  | nil => exact .single (.integer hlast)
  | chain hfirst hoperator _ ih =>
      rw [List.append_assoc, List.cons_append]
      exact .chain hfirst hoperator ih

end Grammar

namespace Node

/-! ## Trees that break off -/

inductive BrokenOff (span : Span) : Node → List Token → Prop
  | missing : BrokenOff span (.error span) []
  | binary {left right : Node} {operator : Operator} {token : Token}
      {before after : List Token} (hleft : SpelledBy left before)
      (hoperator : Operator.ofToken? token = some operator)
      (hright : BrokenOff span right after) :
      BrokenOff span (.binary left operator right) (before ++ token :: after)

/-- The expression without its last operand. -/
def breakOff (span : Span) : Node → Node
  | binary left operator right => .binary left operator (right.breakOff span)
  | _ => .error span

@[simp] theorem isAdditive_breakOff (span : Span) (node : Node) :
    (node.breakOff span).isAdditive = node.isAdditive := by
  cases node <;> rfl

theorem Grouped.breakOff {node : Node} (h : node.Grouped) (span : Span) :
    (node.breakOff span).Grouped := by
  induction node with
  | binary left operator right _ ihRight =>
      obtain ⟨hadditive, hmultiplicative, hleft, hright⟩ := h
      refine ⟨hadditive, ?_, hleft, ihRight hright⟩
      intro hmultiplies
      rw [isAdditive_breakOff]
      exact hmultiplicative hmultiplies
  | _ => trivial

theorem SpelledBy.breakOff {node : Node} {tokens : List Token} {last : Token}
    (h : node.SpelledBy (tokens ++ [last]))
    (hlast : last.kind = .integerLiteral) (span : Span) :
    (node.breakOff span).BrokenOff span tokens := by
  generalize hwhole : tokens ++ [last] = whole at h
  induction h generalizing tokens with
  | number =>
      obtain rfl : tokens = [] := by simpa using congrArg List.length hwhole
      exact .missing
  | reference =>
      obtain rfl : tokens = [] := by simpa using congrArg List.length hwhole
      exact .missing
  | parenthesized _ _ hclosing _ =>
      rw [← List.cons_append] at hwhole
      obtain ⟨-, hsame⟩ := List.append_inj' hwhole rfl
      rw [← List.singleton_inj.mp hsame, hlast] at hclosing
      contradiction
  | @binary left right operator token before after hleft hoperator hright _
      ihRight =>
      obtain ⟨first, rest, hafter, -⟩ := hright.begins
      obtain ⟨inner, final, rfl⟩ : ∃ inner final, after = inner ++ [final] :=
        List.eq_nil_or_concat' after |>.resolve_left (by simp [hafter])
      rw [← List.cons_append, ← List.append_assoc] at hwhole
      obtain ⟨rfl, hsame⟩ := List.append_inj' hwhole rfl
      exact .binary hleft hoperator (ihRight (by rw [hsame]))

end Node

theorem Grammar.Unfinished.exists_tree {tokens : List Token}
    (h : Grammar.Unfinished tokens) (span : Span) :
    ∃ body : Node, body.BrokenOff span tokens ∧ body.Grouped := by
  -- Any number would finish the expression.
  let last : Token := ⟨.integerLiteral, "0", span, .integer 0⟩
  have hfinished : Grammar.Derives .expression (tokens ++ [last]) :=
    h.finish rfl
  obtain ⟨node, hnode, hgrouped, -⟩ := hfinished.exists_tree
  exact ⟨node.breakOff span, hnode.breakOff rfl span, hgrouped.breakOff span⟩

namespace Reading

open Node

/-! ## Reading up to the semicolon -/

theorem brokenOff_readsAs (terminal : Token) {semicolon : Token}
    (hkind : semicolon.kind = .semicolon) {node : Node} {tokens : List Token}
    (h : node.BrokenOff semicolon.span tokens) (hgrouped : node.Grouped) :
    ReadsAs terminal node tokens [.expectedExpression semicolon]
      fun rest => ∃ others, rest = semicolon :: others := by
  induction h with
  | missing =>
      apply ReadsAs.of_operand
      rintro rest ⟨others, rfl⟩
      exact operand_of_semicolon terminal others hkind
  | binary hleft hoperator _ ih =>
      have ⟨_, _, hleftGrouped, hrightGrouped⟩ := hgrouped
      exact (mended_readsAs terminal hleft.mended hleftGrouped).binary hoperator
        (ih hrightGrouped) hgrouped

theorem expression_of_brokenOff (terminal : Token) {semicolon : Token}
    (hkind : semicolon.kind = .semicolon) {node : Node} {tokens : List Token}
    (h : node.BrokenOff semicolon.span tokens) (hgrouped : node.Grouped)
    (rest : List Token) :
    expression terminal 0 (tokens ++ semicolon :: rest) =
      ⟨node, [.expectedExpression semicolon], tokens.length⟩ :=
  (brokenOff_readsAs terminal hkind h hgrouped).expression ⟨rest, rfl⟩
    (Operator.ofToken?_of_kind_eq_none hkind rfl)

variable {terminal semicolon : Token} {body : Node} {tokens : List Token}

theorem begins_of_brokenOff (hkind : semicolon.kind = .semicolon)
    (h : body.BrokenOff semicolon.span tokens) :
    ∃ token rest, tokens ++ [semicolon] = token :: rest ∧
      token.kind ≠ .endOfText := by
  cases h with
  | missing => exact ⟨semicolon, [], rfl, by simp [hkind]⟩
  | binary hleft _ _ =>
      obtain ⟨token, rest, hbefore, htoken⟩ := hleft.begins
      refine ⟨token, _, by rw [hbefore]; rfl, ?_⟩
      rcases htoken with htoken | htoken | htoken <;> simp [htoken]

theorem assignment_of_brokenOff (hkind : semicolon.kind = .semicolon)
    (h : body.BrokenOff semicolon.span tokens) (hgrouped : body.Grouped)
    {identifier sign : Token} (hidentifier : identifier.kind = .identifier)
    (hsign : sign.kind = .assign) (rest : List Token) :
    statement terminal (identifier :: sign :: tokens ++ [semicolon] ++ rest) =
      ⟨.assignStatement identifier body, [.expectedExpression semicolon],
        (identifier :: sign :: tokens ++ [semicolon]).length⟩ := by
  have hread := statement_of_assignment sign hidentifier
    (expression_of_brokenOff terminal hkind h hgrouped rest)
  rw [Fault.ofSlot_of_eq hsign, Fault.ofSlot_of_eq hkind] at hread
  rw [List.append_assoc, List.length_append]
  exact hread

theorem beginsUnnamed_of_head?
    (h : ∀ token ∈ tokens.head?, token.kind ≠ .identifier)
    (hkind : semicolon.kind = .semicolon) :
    BeginsUnnamed (tokens ++ [semicolon]) := by
  cases tokens with
  | nil => exact ⟨semicolon, [], rfl, by simp [hkind]⟩
  | cons token rest => exact ⟨token, rest ++ [semicolon], rfl, h token rfl⟩

theorem expressionStatement_of_brokenOff (hkind : semicolon.kind = .semicolon)
    (h : body.BrokenOff semicolon.span tokens) (hgrouped : body.Grouped)
    (hbegins : ∀ token ∈ tokens.head?, token.kind ≠ .identifier)
    (rest : List Token) :
    statement terminal (tokens ++ [semicolon] ++ rest) =
      ⟨.expressionStatement body, [.expectedExpression semicolon],
        (tokens ++ [semicolon]).length⟩ := by
  rw [statement_of_unnamed (beginsUnnamed_of_head? hbegins hkind),
    List.append_assoc, List.length_append]
  exact expressionStatement_of_terminated hkind
    (expression_of_brokenOff terminal hkind h hgrouped rest)

end Reading

def TokenSequence.precededBy (tokens : TokenSequence) (front : List Token) :
    TokenSequence :=
  { tokens with body := front ++ tokens.body }

@[simp] theorem TokenSequence.terminal_precededBy (tokens : TokenSequence)
    (front : List Token) :
    (tokens.precededBy front).terminal = tokens.terminal :=
  rfl

theorem Fault.diagnostic_of_missing {semicolon : Token}
    (hkind : semicolon.kind = .semicolon) :
    (expectedExpression semicolon).diagnostic =
      ⟨.error, "expected expression, found <;>", semicolon.span⟩ := by
  have hmessage : "expected expression, found <" ++ TokenKind.semicolon.name ++
      ">" = "expected expression, found <;>" := by decide +kernel
  rw [← hmessage, ← hkind]
  rfl

namespace Session

/-! ## Reading on after the semicolon -/

/-- The tokens with others after them yield the statement and the diagnostic
first.  What is left then yields the statements and adds the diagnostics that
the others do alone, and so does reading everything at once. -/
structure Resumes (front : List Token) (others : TokenSequence) (node : Node)
    (diagnostic : Diagnostic) : Prop where
  first : ∀ bag,
    (ofTokens (others.precededBy front) bag).perform .nextStatement =
      (.statement (some node),
        ⟨others.precededBy front, front.length, bag.add diagnostic⟩)
  left : ∀ bag,
    let alone := (ofTokens others Bag.empty).perform .allStatements
    let later :=
      perform ⟨others.precededBy front, front.length, bag⟩ .allStatements
    later.1 = alone.1 ∧ later.2.bag = bag.append alone.2.bag.entries
  whole : ∀ bag,
    let alone := (ofTokens others Bag.empty).perform .allStatements
    let all := (ofTokens (others.precededBy front) bag).perform .allStatements
    (∃ nodes, alone.1 = .nodes nodes ∧ all.1 = .nodes (node :: nodes)) ∧
      all.2.bag = (bag.add diagnostic).append alone.2.bag.entries

theorem resumes_of_statement {others : TokenSequence} {token : Token}
    {front : List Token} {node : Node} {fault : Fault}
    (hopen : token.kind ≠ .endOfText)
    (hread : Reading.statement others.terminal
      (token :: front ++ others.body) =
        ⟨node, [fault], (token :: front).length⟩) :
    Resumes (token :: front) others node fault.diagnostic where
  first bag := by
    have hremaining :
        (ofTokens (others.precededBy (token :: front)) bag).remaining =
          token :: (front ++ others.body) := rfl
    have hfirst : Reading.statement
        (ofTokens (others.precededBy (token :: front)) bag).tokens.terminal
        (token :: (front ++ others.body)) = _ := hread
    rw [perform_nextStatement_of_remaining hremaining hopen, hfirst]
    simp [accept, ofTokens, Bag.append, Bag.add]
  left bag := by
    have hleft : remaining ⟨others.precededBy (token :: front),
        (token :: front).length, bag⟩ = others.body := List.drop_left
    simp only [perform_allStatements, accept, hleft]
    exact ⟨rfl, rfl⟩
  whole bag := by
    have hwhole : Reading.statements
        (ofTokens (others.precededBy (token :: front)) bag).tokens.terminal
        (ofTokens (others.precededBy (token :: front)) bag).remaining = _ :=
      Reading.statements_after_statement others.body hopen hread
    simp only [perform_allStatements, accept, hwhole]
    refine ⟨⟨_, rfl, rfl⟩, ?_⟩
    simp [ofTokens, Bag.append, Bag.add, Bag.empty, remaining]

/-- If the last operator before a semicolon lacks its right operand, or if there
is nothing before the semicolon, then the statement is read as the tree of what
is there with an error node for what is missing.  One diagnostic says so, and
the tokens after the semicolon are read as if nothing stood before them. -/
theorem allStatements_resumes {front : List Token} {semicolon : Token}
    (hfront : Grammar.Unfinished front) (hkind : semicolon.kind = .semicolon)
    (others : TokenSequence) :
    let missing : Diagnostic :=
      ⟨.error, "expected expression, found <;>", semicolon.span⟩
    (∃ body : Node, body.BrokenOff semicolon.span front ∧ body.Grouped) ∧
      ∀ body : Node, body.BrokenOff semicolon.span front → body.Grouped →
        (∀ identifier sign : Token, identifier.kind = .identifier →
          sign.kind = .assign →
            Resumes (identifier :: sign :: front ++ [semicolon]) others
              (.assignStatement identifier body) missing) ∧
        ((∀ token ∈ front.head?, token.kind ≠ .identifier) →
          Resumes (front ++ [semicolon]) others (.expressionStatement body)
            missing) := by
  intro missing
  have hmissing : (Fault.expectedExpression semicolon).diagnostic = missing :=
    Fault.diagnostic_of_missing hkind
  refine ⟨hfront.exists_tree semicolon.span, ?_⟩
  intro body hbody hgrouped
  rw [← hmissing]
  refine ⟨?_, ?_⟩
  · intro identifier sign hidentifier hsign
    exact resumes_of_statement (by simp [hidentifier])
      (Reading.assignment_of_brokenOff hkind hbody hgrouped hidentifier hsign
        others.body)
  · intro hbegins
    have hread : Reading.statement others.terminal _ = _ :=
      Reading.expressionStatement_of_brokenOff hkind hbody hgrouped hbegins
        others.body
    obtain ⟨token, rest, hcons, hopen⟩ :=
      Reading.begins_of_brokenOff hkind hbody
    rw [hcons] at hread ⊢
    exact resumes_of_statement hopen hread

def openSum : List Token :=
  [⟨.integerLiteral, "1", Span.covering 0 ['1'], .integer 1⟩,
    ⟨.plus, "+", Span.covering 1 ['+'], .absent⟩]

def sumSemicolon : Token := ⟨.semicolon, ";", Span.covering 2 [';'], .absent⟩

theorem openSum_resumes :
    Grammar.Unfinished openSum ∧ sumSemicolon.kind = .semicolon ∧
      Resumes (openSum ++ [sumSemicolon]) terminatedNumber
        (.expressionStatement (.binary (.number 1)
          ⟨.plus, ⟨.plus, "+", Span.covering 1 ['+'], .absent⟩⟩
          (.error sumSemicolon.span)))
        ⟨.error, "expected expression, found <;>", sumSemicolon.span⟩ := by
  have hfront : Grammar.Unfinished openSum :=
    .chain (.integer rfl) (by decide) .nil
  have hkind : sumSemicolon.kind = .semicolon := rfl
  refine ⟨hfront, hkind, ?_⟩
  have hresumes := (allStatements_resumes hfront hkind terminatedNumber).2 _
    (.binary (.number rfl) rfl .missing)
    (by simp [Node.Grouped, Node.isAdditive, Node.isBinary])
  exact hresumes.2 (by decide)

end Session

end ExprLang

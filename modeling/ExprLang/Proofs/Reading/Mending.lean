import ExprLang.Proofs.Reading.Stratified

/-!
# Trees mended from tokens

Reading takes any token in the place of a required one and goes on as if it were
the required one.  So a tree can be read from tokens that do not spell it: at
the sign of an assignment, at the closing of a parenthesis and at the semicolon
of an assignment another token may stand, as long as it is no operator that
would be read before.  A tree grouped as the two-level grammar demands is read
from such tokens with one fault for each wrong one (`statements_of_mended`).
-/

namespace ExprLang

def Fault.ofSlot (required : TokenKind) (found : Token) : List Fault :=
  if found.kind = required then [] else [.unexpectedToken required found]

@[simp] theorem Fault.ofSlot_of_eq {required : TokenKind} {found : Token}
    (h : found.kind = required) : ofSlot required found = [] :=
  if_pos h

theorem Fault.ofSlot_of_ne {required : TokenKind} {found : Token}
    (h : found.kind ≠ required) :
    ofSlot required found = [.unexpectedToken required found] :=
  if_neg h

namespace Node

/-! ## Tokens and faults of a tree -/

/-- The expression is made of the tokens, and the faults are those of the tokens
that stand where parentheses should close. -/
inductive MendedFrom : Node → List Token → List Fault → Prop
  | number {token : Token} (hkind : token.kind = .integerLiteral) :
      MendedFrom (.number token.number) [token] []
  | reference {token : Token} (hkind : token.kind = .identifier) :
      MendedFrom (.reference token) [token] []
  | parenthesized {inner : Node} {opening closing : Token}
      {tokens : List Token} {faults : List Fault}
      (hopening : opening.kind = .leftParen)
      (hinner : MendedFrom inner tokens faults)
      (hclosing : Operator.ofToken? closing = none) :
      MendedFrom (.parenthesized inner) (opening :: (tokens ++ [closing]))
        (faults ++ Fault.ofSlot .rightParen closing)
  | binary {left right : Node} {operator : Operator} {token : Token}
      {before after : List Token} {faults later : List Fault}
      (hleft : MendedFrom left before faults)
      (hoperator : Operator.ofToken? token = some operator)
      (hright : MendedFrom right after later) :
      MendedFrom (.binary left operator right) (before ++ token :: after)
        (faults ++ later)

def BeginsUnnamed (tokens : List Token) : Prop :=
  ∃ token rest, tokens = token :: rest ∧ token.kind ≠ .identifier

inductive StatementMendedFrom : Node → List Token → List Fault → Prop
  | assignment {identifier sign ending : Token} {initializer : Node}
      {tokens : List Token} {faults : List Fault}
      (hidentifier : identifier.kind = .identifier)
      (hinitializer : MendedFrom initializer tokens faults)
      (hending : Operator.ofToken? ending = none) :
      StatementMendedFrom (.assignStatement identifier initializer)
        (identifier :: sign :: (tokens ++ [ending]))
        (Fault.ofSlot .assign sign ++ faults ++ Fault.ofSlot .semicolon ending)
  | expression {body : Node} {tokens : List Token} {faults : List Fault}
      (hbody : MendedFrom body tokens faults)
      (hbegins : BeginsUnnamed tokens) :
      StatementMendedFrom (.expressionStatement body) tokens faults
  | terminated {body : Node} {tokens : List Token} {ending : Token}
      {faults : List Fault} (hbody : MendedFrom body tokens faults)
      (hbegins : BeginsUnnamed tokens) (hending : ending.kind = .semicolon) :
      StatementMendedFrom (.expressionStatement body) (tokens ++ [ending]) faults

inductive AllMendedFrom : List Node → List Token → List Fault → Prop
  | nil : AllMendedFrom [] [] []
  | cons {node : Node} {nodes : List Node} {tokens others : List Token}
      {faults later : List Fault}
      (hfirst : StatementMendedFrom node tokens faults)
      (hothers : AllMendedFrom nodes others later) :
      AllMendedFrom (node :: nodes) (tokens ++ others) (faults ++ later)

def BeginsStatement (tokens : List Token) : Prop :=
  ∃ token rest, tokens = token :: rest ∧
    (token.kind = .identifier ∨ token.kind = .integerLiteral ∨
      token.kind = .leftParen)

theorem BeginsStatement.append {tokens : List Token}
    (h : BeginsStatement tokens) (rest : List Token) :
    BeginsStatement (tokens ++ rest) := by
  obtain ⟨token, others, rfl, hkind⟩ := h
  exact ⟨token, others ++ rest, rfl, hkind⟩

theorem MendedFrom.begins {node : Node} {tokens : List Token}
    {faults : List Fault} (h : node.MendedFrom tokens faults) :
    BeginsStatement tokens := by
  induction h with
  | number hkind => exact ⟨_, [], rfl, .inr (.inl hkind)⟩
  | reference hkind => exact ⟨_, [], rfl, .inl hkind⟩
  | parenthesized hopening _ _ _ => exact ⟨_, _, rfl, .inr (.inr hopening)⟩
  | binary _ _ _ ihLeft _ => exact ihLeft.append _

theorem StatementMendedFrom.begins {node : Node} {tokens : List Token}
    {faults : List Fault} (h : node.StatementMendedFrom tokens faults) :
    BeginsStatement tokens := by
  cases h with
  | assignment hidentifier _ _ => exact ⟨_, _, rfl, .inl hidentifier⟩
  | expression hbody _ => exact hbody.begins
  | terminated hbody _ _ => exact hbody.begins.append _

end Node

namespace Reading

open Node

/-! ## Reading expressions back -/

/-- Each level at which a tree can stand reads it from the tokens with the
faults, and takes exactly these tokens, when what follows is as required and
is not taken at that level. -/
structure ReadsAs (terminal : Token) (node : Node) (tokens : List Token)
    (faults : List Fault) (Follows : List Token → Prop) : Prop where
  operand : node.isBinary = false → ∀ rest, Follows rest →
    Reading.operand terminal (tokens ++ rest) = ⟨node, faults, tokens.length⟩
  product : node.isAdditive = false → ∀ rest, Follows rest →
    Rejects OperatorKind.isMultiplicative rest →
      Reading.product terminal (tokens ++ rest) =
        ⟨node, faults, tokens.length⟩
  sum : ∀ rest, Follows rest → leadingOperator? rest = none →
    Reading.sum terminal (tokens ++ rest) = ⟨node, faults, tokens.length⟩

theorem stratum_of_lower {lower : List Token → Reading Node}
    {accepts : OperatorKind → Bool} {node : Node} {tokens rest : List Token}
    {faults : List Fault}
    (hlower : lower (tokens ++ rest) = ⟨node, faults, tokens.length⟩)
    (hrejects : Rejects accepts rest) :
    stratum lower accepts (tokens ++ rest) = ⟨node, faults, tokens.length⟩ := by
  rw [stratum_of_rejects, hlower]
  rw [hlower, List.drop_left]
  exact hrejects

theorem stratum_of_binary {lower : List Token → Reading Node}
    {accepts : OperatorKind → Bool} {left right : Node} {operator : Operator}
    {token : Token} {before after rest : List Token}
    {faults later : List Fault}
    (hleft : lower (before ++ token :: (after ++ rest)) =
      ⟨left, faults, before.length⟩)
    (hoperator : Operator.ofToken? token = some operator)
    (haccepts : accepts operator.kind = true)
    (hright : stratum lower accepts (after ++ rest) =
      ⟨right, later, after.length⟩) :
    stratum lower accepts (before ++ token :: (after ++ rest)) =
      ⟨.binary left operator right, faults ++ later,
        (before ++ token :: after).length⟩ := by
  have hdrop : (before ++ token :: (after ++ rest)).drop
      (lower (before ++ token :: (after ++ rest))).taken =
        token :: (after ++ rest) := by
    rw [hleft, List.drop_left]
  rw [stratum_of_accepts hdrop hoperator haccepts, hleft, hright, joined]
  simp only [List.length_append, List.length_cons, Reading.mk.injEq, true_and]
  omega

theorem rejects_of_none {accepts : OperatorKind → Bool} {rest : List Token}
    (h : leadingOperator? rest = none) : Rejects accepts rest := by
  simp [Rejects, h]

namespace ReadsAs

variable {terminal token : Token} {node left right : Node}
  {operator : Operator} {tokens before after : List Token}
  {faults later : List Fault} {Follows : List Token → Prop}

theorem of_operand (h : ∀ rest, Follows rest →
      Reading.operand terminal (tokens ++ rest) =
        ⟨node, faults, tokens.length⟩) :
    ReadsAs terminal node tokens faults Follows where
  operand _ := h
  product _ rest hfollows hrejects :=
    stratum_of_lower (h rest hfollows) hrejects
  sum rest hfollows hnone :=
    stratum_of_lower (stratum_of_lower (h rest hfollows) (rejects_of_none hnone))
      (rejects_of_none hnone)

/-- The operands of an operator are read at the levels that the grouping
demands; only the right one is followed by what follows the whole. -/
theorem binary (hleft : ReadsAs terminal left before faults fun _ => True)
    (hoperator : Operator.ofToken? token = some operator)
    (hright : ReadsAs terminal right after later Follows)
    (hgrouped : (Node.binary left operator right).Grouped) :
    ReadsAs terminal (.binary left operator right) (before ++ token :: after)
      (faults ++ later) Follows := by
  obtain ⟨hadditive, hmultiplicative, -, -⟩ := hgrouped
  cases hlevel : operator.kind.isAdditive with
  | true =>
      refine ⟨by simp [isBinary], by simp [isAdditive, hlevel], ?_⟩
      intro rest hfollows hnone
      rw [List.append_assoc, List.cons_append]
      apply stratum_of_binary _ hoperator hlevel
        (hright.sum rest hfollows hnone)
      apply hleft.product (hadditive hlevel) _ trivial
      simp [Rejects, hoperator, hlevel]
  | false =>
      have hmultiplies : operator.kind.isMultiplicative = true := by
        simp [hlevel]
      obtain ⟨hleftOperand, hrightProduct⟩ := hmultiplicative hmultiplies
      have hproduct : ∀ rest, Follows rest →
          Rejects OperatorKind.isMultiplicative rest →
          Reading.product terminal (before ++ token :: after ++ rest) =
            ⟨.binary left operator right, faults ++ later,
              (before ++ token :: after).length⟩ := by
        intro rest hfollows hrejects
        rw [List.append_assoc, List.cons_append]
        exact stratum_of_binary (hleft.operand hleftOperand _ trivial)
          hoperator hmultiplies
          (hright.product hrightProduct rest hfollows hrejects)
      refine ⟨by simp [isBinary], fun _ => hproduct, ?_⟩
      intro rest hfollows hnone
      exact stratum_of_lower (hproduct rest hfollows (rejects_of_none hnone))
        (rejects_of_none hnone)

theorem expression (h : ReadsAs terminal node tokens faults Follows)
    {rest : List Token} (hfollows : Follows rest)
    (hnone : leadingOperator? rest = none) :
    Reading.expression terminal 0 (tokens ++ rest) =
      ⟨node, faults, tokens.length⟩ := by
  rw [expression_eq_sum terminal (by decide)]
  exact h.sum rest hfollows hnone

end ReadsAs

theorem mended_readsAs (terminal : Token) {node : Node} {tokens : List Token}
    {faults : List Fault} (h : node.MendedFrom tokens faults)
    (hgrouped : node.Grouped) :
    ReadsAs terminal node tokens faults fun _ => True := by
  induction h with
  | number hkind =>
      apply ReadsAs.of_operand
      intro rest _
      exact operand_of_integer terminal rest hkind
  | reference hkind =>
      apply ReadsAs.of_operand
      intro rest _
      exact operand_of_identifier terminal rest hkind
  | @parenthesized inner opening closing tokens faults hopening _ hclosing ih =>
      apply ReadsAs.of_operand
      intro rest _
      have hinner : expression terminal 0 (tokens ++ closing :: rest) =
          ⟨inner, faults, tokens.length⟩ :=
        (ih hgrouped).expression trivial hclosing
      have happend : opening :: (tokens ++ [closing]) ++ rest =
          opening :: (tokens ++ closing :: rest) := by simp
      rw [happend, operand_of_paren terminal _ hopening, hinner]
      simp only [List.drop_left, expect, List.headD_cons, Fault.ofSlot,
        List.length_cons, List.length_append, List.length_nil,
        Reading.mk.injEq, true_and]
      omega
  | binary _ hoperator _ ihLeft ihRight =>
      exact (ihLeft hgrouped.2.2.1).binary hoperator (ihRight hgrouped.2.2.2)
        hgrouped

theorem expression_of_mended (terminal : Token) {node : Node}
    {tokens : List Token} {faults : List Fault}
    (h : node.MendedFrom tokens faults) (hgrouped : node.Grouped)
    {rest : List Token} (hrest : leadingOperator? rest = none) :
    expression terminal 0 (tokens ++ rest) = ⟨node, faults, tokens.length⟩ :=
  (mended_readsAs terminal h hgrouped).expression trivial hrest

/-! ## Reading statements back -/

/-- Tokens that a statement without a semicolon leaves to others. -/
def EndsStatement (terminal : Token) (rest : List Token) : Prop :=
  leadingOperator? rest = none ∧ (rest.headD terminal).kind ≠ .semicolon

theorem statement_of_unnamed {terminal : Token} {tokens : List Token}
    (h : BeginsUnnamed tokens) (rest : List Token) :
    statement terminal (tokens ++ rest) =
      expressionStatement terminal (tokens ++ rest) := by
  obtain ⟨token, others, rfl, hkind⟩ := h
  rw [statement, List.cons_append, List.headD_cons, if_neg hkind]

theorem statement_of_assignment {terminal identifier ending : Token}
    (sign : Token) {body : Node} {tokens rest : List Token}
    {faults : List Fault} (hidentifier : identifier.kind = .identifier)
    (hbody : expression terminal 0 (tokens ++ ending :: rest) =
      ⟨body, faults, tokens.length⟩) :
    statement terminal (identifier :: sign :: tokens ++ ending :: rest) =
      ⟨.assignStatement identifier body,
        Fault.ofSlot .assign sign ++ faults ++ Fault.ofSlot .semicolon ending,
        (identifier :: sign :: tokens).length + 1⟩ := by
  have hdrop : (tokens ++ ending :: rest).drop tokens.length =
      ending :: rest := List.drop_left
  simp only [List.cons_append]
  rw [statement, List.headD_cons, if_pos hidentifier, assignment]
  simp only [List.drop_succ_cons, List.drop_zero, hbody, expect, Fault.ofSlot,
    List.headD_cons, ← List.drop_drop, hdrop, List.length_cons,
    Reading.mk.injEq, true_and]
  omega

theorem expressionStatement_of_terminated {terminal ending : Token}
    {body : Node} {tokens rest : List Token} {faults : List Fault}
    (hending : ending.kind = .semicolon)
    (hbody : expression terminal 0 (tokens ++ ending :: rest) =
      ⟨body, faults, tokens.length⟩) :
    expressionStatement terminal (tokens ++ ending :: rest) =
      ⟨.expressionStatement body, faults, tokens.length + 1⟩ := by
  simp [expressionStatement, hbody, hending]

theorem statement_of_mended {terminal : Token} {node : Node}
    {tokens rest : List Token} {faults : List Fault}
    (h : node.StatementMendedFrom tokens faults) (hgrouped : node.Grouped)
    (hrest : EndsStatement terminal rest) :
    statement terminal (tokens ++ rest) = ⟨node, faults, tokens.length⟩ := by
  cases h with
  | @assignment identifier sign ending _ tokens _ hidentifier hinitializer
      hending =>
      have hnone : leadingOperator? (ending :: rest) = none := hending
      have hread := statement_of_assignment sign hidentifier
        (expression_of_mended terminal hinitializer hgrouped hnone)
      simpa using hread
  | expression hbody hbegins =>
      have hread := expression_of_mended terminal hbody hgrouped hrest.1
      rw [statement_of_unnamed hbegins, expressionStatement, hread]
      simp only [List.drop_left]
      rw [if_neg hrest.2]
  | @terminated _ tokens ending _ hbody hbegins hending =>
      have hnone : leadingOperator? (ending :: rest) = none :=
        Operator.ofToken?_of_kind_eq_none hending rfl
      have hread := expressionStatement_of_terminated hending
        (expression_of_mended terminal hbody hgrouped hnone)
      rw [List.append_assoc, statement_of_unnamed hbegins]
      simpa using hread

theorem endsStatement_of_begins (terminal : Token) {tokens : List Token}
    (h : BeginsStatement tokens) : EndsStatement terminal tokens := by
  obtain ⟨token, rest, rfl, hkind⟩ := h
  rcases hkind with hkind | hkind | hkind <;>
    exact ⟨Operator.ofToken?_of_kind_eq_none hkind rfl, by simp [hkind]⟩

theorem endsStatement_of_mended {terminal : Token}
    (hterminal : terminal.kind = .endOfText) {nodes : List Node}
    {tokens : List Token} {faults : List Fault}
    (h : AllMendedFrom nodes tokens faults) : EndsStatement terminal tokens := by
  cases h with
  | nil => exact ⟨rfl, by simp [hterminal]⟩
  | cons hfirst _ =>
      exact endsStatement_of_begins terminal (hfirst.begins.append _)

theorem statements_after_statement {terminal token : Token} {node : Node}
    {tokens : List Token} {faults : List Fault} (rest : List Token)
    (hopen : token.kind ≠ .endOfText)
    (hread : statement terminal (token :: tokens ++ rest) =
      ⟨node, faults, (token :: tokens).length⟩) :
    statements terminal (token :: tokens ++ rest) =
      let others := statements terminal rest
      ⟨node :: others.value, faults ++ others.faults,
        (token :: tokens).length + others.taken⟩ := by
  rw [List.cons_append, statements, if_neg hopen, ← List.cons_append, hread]
  simp only [List.drop_left]

theorem statements_of_mended {terminal : Token}
    (hterminal : terminal.kind = .endOfText) {nodes : List Node}
    {tokens : List Token} {faults : List Fault}
    (h : AllMendedFrom nodes tokens faults)
    (hgrouped : ∀ node ∈ nodes, node.Grouped) :
    statements terminal tokens = ⟨nodes, faults, tokens.length⟩ := by
  induction h with
  | nil => rw [statements]; rfl
  | @cons node nodes tokens others faults later hfirst hothers ih =>
      obtain ⟨hnode, hnodes⟩ := List.forall_mem_cons.mp hgrouped
      have hread := statement_of_mended hfirst hnode
        (endsStatement_of_mended hterminal hothers)
      obtain ⟨token, more, rfl, hkind⟩ := hfirst.begins
      have hopen : token.kind ≠ .endOfText := by
        rcases hkind with hkind | hkind | hkind <;> simp [hkind]
      rw [statements_after_statement others hopen hread, ih hnodes, List.length_append]

end Reading

end ExprLang

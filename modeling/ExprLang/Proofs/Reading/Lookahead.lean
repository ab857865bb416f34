import ExprLang.Proofs.Reading.Invariant
import ExprLang.Reading.Session

/-!
# One token ahead

What is read depends on the tokens that it takes and on the one after them,
which is the terminal token where the others end.  Two token lists that have so
many tokens in common are read alike, whatever follows (`AgreesFor`).  So are
two sessions, whatever stands before the tokens (`perform_looks_one_ahead`).
-/

namespace ExprLang

namespace Reading

/-! ## Lists that agree for a number of tokens -/

/-- The lists begin with the same tokens, so many of them, and the token found
after these is the same, too. -/
inductive AgreesFor (terminal terminal' : Token) :
    Nat → List Token → List Token → Prop
  | ahead {tokens others : List Token}
      (hnext : tokens.headD terminal = others.headD terminal') :
      AgreesFor terminal terminal' 0 tokens others
  | cons {count : Nat} {token : Token} {rest others : List Token}
      (hrest : AgreesFor terminal terminal' count rest others) :
      AgreesFor terminal terminal' (count + 1) (token :: rest) (token :: others)

/-- The reading, which was made from the tokens, is made again from any others
that agree with them for the tokens it takes. -/
def IsRepeated (terminal terminal' : Token) {α : Type} (tokens : List Token)
    (reading : Reading α) (again : List Token → Reading α) : Prop :=
  ∀ count others, AgreesFor terminal terminal' count tokens others →
    reading.taken ≤ count → again others = reading

section

variable {terminal terminal' : Token} {count : Nat} {tokens others : List Token}

theorem AgreesFor.headD_eq
    (h : AgreesFor terminal terminal' count tokens others) :
    others.headD terminal' = tokens.headD terminal := by
  cases h with
  | ahead hnext => exact hnext.symm
  | cons hrest => rfl

theorem AgreesFor.drop (h : AgreesFor terminal terminal' count tokens others)
    {taken : Nat} (hle : taken ≤ count) :
    AgreesFor terminal terminal' (count - taken) (tokens.drop taken)
      (others.drop taken) := by
  induction taken generalizing count tokens others with
  | zero => exact h
  | succ taken ih =>
      cases h with
      | ahead => contradiction
      | @cons count _ _ _ hrest =>
          rw [Nat.add_sub_add_right]
          exact ih hrest (by omega)

theorem agreesFor_of_take (hcount : count ≤ tokens.length)
    (hcount' : count ≤ others.length)
    (h : (others ++ [terminal']).take (count + 1) =
      (tokens ++ [terminal]).take (count + 1)) :
    AgreesFor terminal terminal' count tokens others := by
  induction count generalizing tokens others with
  | zero =>
      apply AgreesFor.ahead
      cases tokens <;> cases others <;> simp_all
  | succ count ih =>
      cases tokens with
      | nil => contradiction
      | cons token rest =>
          cases others with
          | nil => contradiction
          | cons other others =>
              simp only [List.length_cons, Nat.add_le_add_iff_right]
                at hcount hcount'
              simp only [List.cons_append, List.take_succ_cons,
                List.cons.injEq] at h
              rw [h.1]
              exact .cons (ih hcount hcount' h.2)

/-! ## Reading the same again -/

variable (hterminal : terminal.kind = .endOfText)
  (hterminal' : terminal'.kind = .endOfText)

theorem AgreesFor.expect_eq
    (h : AgreesFor terminal terminal' count tokens others)
    (required : TokenKind) :
    expect terminal' required others = expect terminal required tokens := by
  simp only [expect, h.headD_eq]

include hterminal hterminal'

theorem repeated_invariant :
    Invariant terminal
      (fun tokens reading => IsRepeated terminal terminal' tokens reading
        (operand terminal'))
      (fun least tokens reading => IsRepeated terminal terminal' tokens reading
        (expression terminal' least))
      (fun least left tokens reading => IsRepeated terminal terminal' tokens
        reading (continuation terminal' least left)) where
  ended := by
    rintro _ others (_ | _) htaken
    contradiction
  semicolon := by
    intro token rest hkind count others h htaken
    cases h with
    | ahead hnext =>
        -- A semicolon is not taken, so it may be found ahead only.
        cases others with
        | nil =>
            rw [List.headD_cons, List.headD_nil] at hnext
            rw [hnext, hterminal'] at hkind
            contradiction
        | cons other others =>
            rw [List.headD_cons, List.headD_cons] at hnext
            rw [hnext] at hkind ⊢
            exact operand_of_semicolon terminal' others hkind
    | cons hrest => exact operand_of_semicolon terminal' _ hkind
  integer := by
    rintro token rest hkind _ others (_ | _) htaken
    · contradiction
    · exact operand_of_integer terminal' _ hkind
  identifier := by
    rintro token rest hkind _ others (_ | _) htaken
    · contradiction
    · exact operand_of_identifier terminal' _ hkind
  unexpected := by
    rintro token rest hsemicolon hinteger hparen hidentifier _ others (_ | _)
      htaken
    · contradiction
    · exact operand_of_other terminal' _ hsemicolon hinteger hparen hidentifier
  parenthesized := by
    intro token rest inner hkind hinner count others h htaken
    cases h with
    | ahead =>
        dsimp only at htaken
        omega
    | @cons count _ _ others hrest =>
        dsimp only at htaken
        have hle : inner.taken ≤ count := by omega
        rw [operand_of_paren terminal' _ hkind, hinner count others hrest hle]
        dsimp only
        rw [(hrest.drop hle).expect_eq]
  continued := by
    intro least tokens first whole hfirst hwhole count others h htaken
    dsimp only at htaken
    have hle : first.taken ≤ count := by omega
    rw [expression, hfirst count others h hle, hwhole _ _ (h.drop hle) (by omega)]
  finished := by
    intro least left tokens hlt count others h htaken
    apply continuation_of_lt
    rw [leadingOperator?_eq_headD hterminal', h.headD_eq,
      ← leadingOperator?_eq_headD hterminal]
    exact hlt
  operated := by
    intro least left token rest operator right whole hoperator hle hright hwhole
      count others h htaken
    cases h with
    | ahead =>
        dsimp only at htaken
        omega
    | @cons count _ _ others hrest =>
        dsimp only at htaken
        have hle' : right.taken ≤ count := by omega
        rw [continuation_of_le terminal' left _ hoperator hle,
          hright count others hrest hle']
        dsimp only
        rw [hwhole _ _ (hrest.drop hle') (by omega)]

theorem expression_repeated (least : Int) (tokens : List Token) :
    IsRepeated terminal terminal' tokens (expression terminal least tokens)
      (expression terminal' least) :=
  (repeated_invariant hterminal hterminal').expression least tokens

theorem assignment_repeated (tokens : List Token) :
    IsRepeated terminal terminal' tokens (assignment terminal tokens)
      (assignment terminal') := by
  intro count others h htaken
  simp only [assignment] at htaken
  have hinitializer := expression_repeated hterminal hterminal' 0
    (tokens.drop 2) (count - 2) _ (h.drop (by omega)) (by omega)
  rw [assignment, hinitializer, assignment, h.headD_eq,
    (h.drop (by omega)).expect_eq, (h.drop (by omega)).expect_eq]

theorem expressionStatement_repeated (tokens : List Token) :
    IsRepeated terminal terminal' tokens (expressionStatement terminal tokens)
      (expressionStatement terminal') := by
  intro count others h htaken
  have hle : (expression terminal 0 tokens).taken ≤ count := by
    simp only [expressionStatement] at htaken
    split at htaken <;> omega
  rw [expressionStatement, expression_repeated hterminal hterminal' 0 tokens
    count others h hle, (h.drop hle).headD_eq, expressionStatement]

theorem statement_repeated (tokens : List Token) :
    IsRepeated terminal terminal' tokens (statement terminal tokens)
      (statement terminal') := by
  intro count others h htaken
  rw [statement] at htaken ⊢
  rw [statement, h.headD_eq]
  split
  case isTrue hkind =>
    rw [if_pos hkind] at htaken
    exact assignment_repeated hterminal hterminal' tokens count others h htaken
  case isFalse hkind =>
    rw [if_neg hkind] at htaken
    exact expressionStatement_repeated hterminal hterminal' tokens count others
      h htaken

omit hterminal hterminal' in
theorem statements_of_ended (h : (tokens.headD terminal).kind = .endOfText) :
    statements terminal tokens = ⟨[], [], 0⟩ := by
  cases tokens with
  | nil => rw [statements]
  | cons token rest =>
      rw [List.headD_cons] at h
      rw [statements, if_pos h]

theorem statements_repeated (tokens : List Token) :
    IsRepeated terminal terminal' tokens (statements terminal tokens)
      (statements terminal') := by
  intro count others h htaken
  fun_induction statements terminal tokens generalizing count others with
  | case1 =>
      apply statements_of_ended
      rw [h.headD_eq]
      exact hterminal
  | case2 token rest hkind =>
      apply statements_of_ended
      rw [h.headD_eq]
      exact hkind
  | case3 token rest hkind first following ih =>
      have hle : first.taken ≤ count := Nat.le_of_add_right_le htaken
      have hfirst := statement_repeated hterminal hterminal' (token :: rest)
        count others h hle
      have hothers := ih (count - first.taken) _ (h.drop hle)
        (Nat.le_sub_of_add_le' htaken)
      have hpos : 0 < first.taken := statement_taken_pos terminal _
      cases h with
      | ahead => omega
      | cons hrest =>
          rw [statements, if_neg hkind, hfirst]
          dsimp only
          rw [hothers]

end

end Reading

namespace Session

/-! ## Two sessions before the same tokens -/

def advance (session : Session) (count : Nat) (diagnostics : List Diagnostic) :
    Session :=
  { session with
    current := session.current + count
    bag := session.bag.append diagnostics }

theorem advance_zero (session : Session) : session.advance 0 [] = session := by
  simp [advance, Bag.append]

/-- The outcomes have one answer, and both sessions went over so many tokens and
added the same diagnostics. -/
def OutcomesAgree (session other : Session) (count : Nat)
    (outcome outcome' : Answer × Session) : Prop :=
  ∃ answer diagnostics,
    outcome = (answer, session.advance count diagnostics) ∧
      outcome' = (answer, other.advance count diagnostics)

variable {session other : Session} {count : Nat}

theorem outcomesAgree_unchanged (answer : Answer)
    (hcurrent : session.current = session.current + count) :
    OutcomesAgree session other count (answer, session) (answer, other) := by
  have hcount : count = 0 := by omega
  subst hcount
  exact ⟨answer, [], by rw [advance_zero], by rw [advance_zero]⟩

theorem outcomesAgree_accept {α : Type} (answer : α → Answer)
    {reading : Reading α} {again : List Token → Reading α}
    (hagree : Reading.AgreesFor session.tokens.terminal other.tokens.terminal
      count session.remaining other.remaining)
    (hrepeated : Reading.IsRepeated session.tokens.terminal
      other.tokens.terminal session.remaining reading again)
    (hcurrent : (session.accept reading).2.current = session.current + count) :
    OutcomesAgree session other count
      (answer (session.accept reading).1, (session.accept reading).2)
      (answer (other.accept (again other.remaining)).1,
        (other.accept (again other.remaining)).2) := by
  have htaken : reading.taken = count := Nat.add_left_cancel hcurrent
  rw [hrepeated count _ hagree (Nat.le_of_eq htaken), ← htaken]
  exact ⟨_, _, rfl, rfl⟩

theorem outcomesAgree_answerNode {reading : Reading Node}
    {again : List Token → Reading Node}
    (hagree : Reading.AgreesFor session.tokens.terminal other.tokens.terminal
      count session.remaining other.remaining)
    (hrepeated : Reading.IsRepeated session.tokens.terminal
      other.tokens.terminal session.remaining reading again)
    (hcurrent : (session.answerNode reading).2.current =
      session.current + count) :
    OutcomesAgree session other count (session.answerNode reading)
      (other.answerNode (again other.remaining)) :=
  outcomesAgree_accept (fun node => .nodes [node]) hagree hrepeated hcurrent

theorem remaining_append_terminal
    (h : session.current ≤ session.tokens.body.length) :
    session.remaining ++ [session.tokens.terminal] =
      session.tokens.toList.drop session.current := by
  rw [remaining, TokenSequence.toList, List.drop_append_of_le_length h]

/-- Every call but a look at a token further on depends on the tokens it takes
and on the next one.  Where another session has the same tokens before it, the
same call has the same answer, adds the same diagnostics and takes as many
tokens, whatever stands before these tokens and after the next one. -/
theorem perform_looks_one_ahead {call : Call}
    (hcall : ∀ offset, call ≠ .peek offset)
    (hcurrent : (session.perform call).2.current = session.current + count)
    (hwithin : session.current + count < session.tokens.length)
    (hwithin' : other.current + count < other.tokens.length)
    (htokens : (other.tokens.toList.drop other.current).take (count + 1) =
      (session.tokens.toList.drop session.current).take (count + 1)) :
    OutcomesAgree session other count (session.perform call)
      (other.perform call) := by
  have hterminal := session.tokens.terminal_kind
  have hterminal' := other.tokens.terminal_kind
  simp only [TokenSequence.length] at hwithin hwithin'
  have hagree : Reading.AgreesFor session.tokens.terminal other.tokens.terminal
      count session.remaining other.remaining := by
    apply Reading.agreesFor_of_take
    · rw [remaining, List.length_drop]
      omega
    · rw [remaining, List.length_drop]
      omega
    · rw [remaining_append_terminal (by omega),
        remaining_append_terminal (by omega)]
      exact htokens
  have hnext : other.next = session.next := hagree.headD_eq
  have hatEnd : other.atEnd = session.atEnd := by rw [atEnd, hnext, atEnd]
  have hstatement :=
    Reading.statement_repeated hterminal hterminal' session.remaining
  have hexpression := fun least =>
    Reading.expression_repeated hterminal hterminal' least session.remaining
  cases call with
  | nextStatement =>
      rw [perform_nextStatement] at hcurrent ⊢
      rw [perform_nextStatement, hatEnd]
      split
      case isTrue hend =>
        rw [if_pos hend] at hcurrent
        exact outcomesAgree_unchanged _ hcurrent
      case isFalse hend =>
        rw [if_neg hend] at hcurrent
        exact outcomesAgree_accept (fun node => .statement (some node)) hagree
          hstatement hcurrent
  | iterate =>
      rw [perform_iterate] at hcurrent ⊢
      rw [perform_iterate, hatEnd]
      split
      case isTrue hend =>
        rw [if_pos hend] at hcurrent
        exact outcomesAgree_unchanged _ hcurrent
      case isFalse hend =>
        rw [if_neg hend] at hcurrent
        exact outcomesAgree_answerNode hagree hstatement hcurrent
  | allStatements =>
      exact outcomesAgree_accept .nodes hagree
        (Reading.statements_repeated hterminal hterminal' _) hcurrent
  | statement => exact outcomesAgree_answerNode hagree hstatement hcurrent
  | assignment =>
      exact outcomesAgree_answerNode hagree
        (Reading.assignment_repeated hterminal hterminal' _) hcurrent
  | expression =>
      exact outcomesAgree_answerNode hagree (hexpression 0) hcurrent
  | binary least =>
      exact outcomesAgree_answerNode hagree (hexpression least) hcurrent
  | operand =>
      exact outcomesAgree_answerNode hagree
        ((Reading.repeated_invariant hterminal hterminal').operand _) hcurrent
  | operator =>
      unfold perform
      rw [hnext]
      exact outcomesAgree_unchanged _ hcurrent
  | atEnd =>
      unfold perform
      rw [hatEnd]
      exact outcomesAgree_unchanged _ hcurrent
  | peek offset => exact absurd rfl (hcall offset)
  | consume =>
      -- One token is taken and nothing is reported.
      unfold perform
      rw [hnext, ← Nat.add_left_cancel hcurrent]
      exact ⟨.token session.next, [], by simp [advance, Bag.append],
        by simp [advance, Bag.append]⟩
  | expect required =>
      exact outcomesAgree_accept .token hagree
        (fun _ _ h _ => h.expect_eq required) hcurrent

def closedBySemicolon : List Token :=
  [⟨.leftParen, "(", Span.covering 1 ['('], .absent⟩,
    ⟨.integerLiteral, "1", Span.covering 2 ['1'], .integer 1⟩,
    ⟨.semicolon, ";", Span.covering 3 [';'], .absent⟩,
    ⟨.integerLiteral, "2", Span.covering 4 ['2'], .integer 2⟩]

def afterMinus : Session :=
  ⟨⟨⟨.minus, "-", Span.covering 0 ['-'], .absent⟩ :: closedBySemicolon,
      Token.endOfText 5, rfl⟩,
    1, Bag.empty⟩

def beforeStar : Session :=
  ⟨⟨closedBySemicolon ++ [⟨.star, "*", Span.covering 5 ['*'], .absent⟩],
      Token.endOfText 6, rfl⟩,
    0, Bag.empty⟩

theorem closedBySemicolon_read_alike :
    (afterMinus.perform .statement).2.current = afterMinus.current + 3 ∧
      afterMinus.current + 3 < afterMinus.tokens.length ∧
      beforeStar.current + 3 < beforeStar.tokens.length ∧
      (beforeStar.tokens.toList.drop beforeStar.current).take 4 =
        (afterMinus.tokens.toList.drop afterMinus.current).take 4 ∧
      OutcomesAgree afterMinus beforeStar 3 (afterMinus.perform .statement)
        (beforeStar.perform .statement) := by
  have hcurrent : (afterMinus.perform .statement).2.current =
      afterMinus.current + 3 := by
    decide +kernel
  have hwithin : afterMinus.current + 3 < afterMinus.tokens.length := by decide
  have hwithin' : beforeStar.current + 3 < beforeStar.tokens.length := by decide
  have htokens : (beforeStar.tokens.toList.drop beforeStar.current).take 4 =
      (afterMinus.tokens.toList.drop afterMinus.current).take 4 := rfl
  exact ⟨hcurrent, hwithin, hwithin', htokens,
    perform_looks_one_ahead (by simp) hcurrent hwithin hwithin' htokens⟩

end Session

end ExprLang

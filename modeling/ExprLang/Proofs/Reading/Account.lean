import ExprLang.Proofs.Reading.Invariant
import ExprLang.Reading.Session

/-!
# Every token is accounted for

A tree is written out as the entries that its tokens have to fill: the tokens
it holds, and the slots that the grammar puts between them.  Whatever is read
fills the entries of its tree by the tokens it takes, one after another, with
the terminal token once the others are used up.  Only a slot may hold a token
of another kind, and it leaves a fault.
-/

namespace ExprLang

namespace Node

inductive Entry where
  | number (value : Int)
  | identifier (name : Token)
  | operator (sign : Operator)
  | opening
  | slot (required : TokenKind)
  | broken (span : Span)
  | terminator
  deriving DecidableEq, Repr

def entries : Node → List Entry
  | number value => [.number value]
  | binary left operator right =>
      left.entries ++ .operator operator :: right.entries
  | parenthesized inner => .opening :: (inner.entries ++ [.slot .rightParen])
  | reference identifier => [.identifier identifier]
  | error span => [.broken span]
  | expressionStatement body => body.entries ++ [.terminator]
  | assignStatement identifier initializer =>
      .identifier identifier :: .slot .assign ::
        (initializer.entries ++ [.slot .semicolon])

def Entry.Holds : Entry → Token → Prop
  | .number value, token =>
      token.kind = .integerLiteral ∧ token.number = value
  | .identifier name, token => token = name ∧ token.kind = .identifier
  | .operator sign, token =>
      token = sign.token ∧
        OperatorKind.ofTokenKind? token.kind = some sign.kind
  | .opening, token => token.kind = .leftParen
  | .slot required, token => token.kind = required
  | .broken _, _ => False
  | .terminator, token => token.kind = .semicolon

/-- The entries take tokens off the front of a list until the rest is left.  A
broken part stands for the token at its span, but leaves a semicolon where it
is; a terminator is absent when no semicolon follows. -/
inductive Fills : List Entry → List Token → List Token → List Fault → Prop
  | done {rest : List Token} : Fills [] rest rest []
  | held {entry : Entry} {token : Token} {entries : List Entry}
      {tokens rest : List Token} {faults : List Fault}
      (hholds : entry.Holds token)
      (hothers : Fills entries tokens rest faults) :
      Fills (entry :: entries) (token :: tokens) rest faults
  | misfit {required : TokenKind} {token : Token} {entries : List Entry}
      {tokens rest : List Token} {faults : List Fault}
      (hkind : token.kind ≠ required)
      (hothers : Fills entries tokens rest faults) :
      Fills (.slot required :: entries) (token :: tokens) rest
        (.unexpectedToken required token :: faults)
  | broken {token : Token} {entries : List Entry} {tokens rest : List Token}
      {faults : List Fault} (hkind : token.kind ≠ .semicolon)
      (hothers : Fills entries tokens rest faults) :
      Fills (.broken token.span :: entries) (token :: tokens) rest
        (.expectedExpression token :: faults)
  | interrupted {token : Token} {entries : List Entry}
      {tokens rest : List Token} {faults : List Fault}
      (hkind : token.kind = .semicolon)
      (hothers : Fills entries (token :: tokens) rest faults) :
      Fills (.broken token.span :: entries) (token :: tokens) rest
        (.expectedExpression token :: faults)
  | unterminated {entries : List Entry} {tokens rest : List Token}
      {faults : List Fault}
      (hnext : ∀ token, tokens.head? = some token → token.kind ≠ .semicolon)
      (hothers : Fills entries tokens rest faults) :
      Fills (.terminator :: entries) tokens rest faults

theorem Fills.append {first second : List Entry} {tokens middle rest : List Token}
    {before after : List Fault} (hfirst : Fills first tokens middle before)
    (hsecond : Fills second middle rest after) :
    Fills (first ++ second) tokens rest (before ++ after) := by
  induction hfirst with
  | done => exact hsecond
  | held hholds _ ih => exact .held hholds (ih hsecond)
  | misfit hkind _ ih => exact .misfit hkind (ih hsecond)
  | broken hkind _ ih => exact .broken hkind (ih hsecond)
  | interrupted hkind _ ih => exact .interrupted hkind (ih hsecond)
  | unterminated hnext _ ih => exact .unterminated hnext (ih hsecond)

end Node

namespace Reading

open Node

/-! ## What is taken fills the entries -/

/-- Taking `taken` of the tokens, and terminal tokens after them, fills the
entries and leaves the faults. -/
def Accounts (terminal : Token) (tokens : List Token) (entries : List Entry)
    (taken : Nat) (faults : List Fault) : Prop :=
  ∀ surplus, Fills entries
    (tokens ++ List.replicate (surplus + (taken - tokens.length)) terminal)
    (tokens.drop taken ++ List.replicate surplus terminal) faults

section

variable {terminal : Token} {tokens : List Token}

theorem Accounts.append {first second : List Entry} {taken more : Nat}
    {before after : List Fault}
    (hfirst : Accounts terminal tokens first taken before)
    (hsecond : Accounts terminal (tokens.drop taken) second more after) :
    Accounts terminal tokens (first ++ second) (taken + more)
      (before ++ after) := by
  intro surplus
  -- What the second part takes beyond the end is surplus for the first.
  have hsurplus : surplus + (more - (tokens.length - taken)) +
      (taken - tokens.length) =
        surplus + (taken + more - tokens.length) := by omega
  have hafter := hsecond surplus
  have hbefore := hfirst (surplus + (more - (tokens.length - taken)))
  rw [List.length_drop, List.drop_drop] at hafter
  rw [hsurplus] at hbefore
  exact hbefore.append hafter

theorem accounts_zero {entries : List Entry} {faults : List Fault}
    (h : ∀ surplus, Fills entries (tokens ++ List.replicate surplus terminal)
      (tokens ++ List.replicate surplus terminal) faults) :
    Accounts terminal tokens entries 0 faults := by
  intro surplus
  simpa using h surplus

theorem accounts_one {entries : List Entry} {faults : List Fault}
    (h : ∀ rest, Fills entries (tokens.headD terminal :: rest) rest faults) :
    Accounts terminal tokens entries 1 faults := by
  intro surplus
  cases tokens with
  | nil => exact h (List.replicate surplus terminal)
  | cons token rest => simpa using h (rest ++ List.replicate surplus terminal)

theorem accounts_held {entry : Entry} (h : entry.Holds (tokens.headD terminal)) :
    Accounts terminal tokens [entry] 1 [] :=
  accounts_one fun _ => .held h .done

theorem Accounts.cons {entry : Entry} {entries : List Entry} {token : Token}
    {taken : Nat} {faults : List Fault} (hholds : entry.Holds token)
    (hothers : Accounts terminal tokens entries taken faults) :
    Accounts terminal (token :: tokens) (entry :: entries) (1 + taken)
      faults := by
  have hfirst : Accounts terminal (token :: tokens) [entry] 1 [] :=
    accounts_held hholds
  exact hfirst.append hothers

theorem accounts_expect (terminal : Token) (required : TokenKind)
    (tokens : List Token) :
    Accounts terminal tokens [.slot required] 1
      (expect terminal required tokens).faults := by
  apply accounts_one
  intro rest
  by_cases hkind : (tokens.headD terminal).kind = required
  · simp only [expect, if_pos hkind]
    exact .held hkind .done
  · simp only [expect, if_neg hkind]
    exact .misfit hkind .done

theorem accounts_broken (h : (tokens.headD terminal).kind ≠ .semicolon) :
    Accounts terminal tokens [.broken (tokens.headD terminal).span] 1
      [.expectedExpression (tokens.headD terminal)] :=
  accounts_one fun _ => .broken h .done

theorem accounts_unterminated
    (h : (tokens.headD terminal).kind ≠ .semicolon) :
    Accounts terminal tokens [.terminator] 0 [] := by
  apply accounts_zero
  intro surplus
  refine .unterminated ?_ .done
  intro token htoken
  cases tokens with
  | nil =>
      have hterminal := List.eq_of_mem_replicate (List.mem_of_mem_head? htoken)
      exact hterminal ▸ h
  | cons first rest =>
      simp only [List.cons_append, List.head?_cons, Option.some.injEq] at htoken
      exact htoken ▸ h

end

theorem entry_of_operator {token : Token} {operator : Operator}
    (h : Operator.ofToken? token = some operator) :
    (Entry.operator operator).Holds token := by
  simp only [Operator.ofToken?, Option.map_eq_some_iff] at h
  obtain ⟨kind, hkind, rfl⟩ := h
  exact ⟨rfl, hkind⟩

theorem accounts_invariant {terminal : Token}
    (hterminal : terminal.kind = .endOfText) :
    Invariant terminal
      (fun tokens reading =>
        Accounts terminal tokens reading.value.entries reading.taken
          reading.faults)
      (fun _ tokens reading =>
        Accounts terminal tokens reading.value.entries reading.taken
          reading.faults)
      (fun _ left tokens reading =>
        ∃ added, reading.value.entries = left.entries ++ added ∧
          Accounts terminal tokens added reading.taken reading.faults) where
  ended := by
    have hnext : (([] : List Token).headD terminal).kind ≠ .semicolon := by
      simp [hterminal]
    exact accounts_broken hnext
  semicolon := by
    intro token rest hkind
    exact accounts_zero fun surplus => .interrupted hkind .done
  integer token rest hkind := accounts_held ⟨hkind, rfl⟩
  parenthesized := by
    intro token rest inner hkind hinner
    have hclosed := hinner.append (accounts_expect terminal .rightParen _)
    have hopened : Accounts terminal (token :: rest)
        (.opening :: (inner.value.entries ++ [.slot .rightParen]))
        (1 + (inner.taken + 1)) _ := hclosed.cons hkind
    rwa [← Nat.add_assoc] at hopened
  identifier token rest hkind := accounts_held ⟨rfl, hkind⟩
  unexpected token rest hkind _ _ _ := accounts_broken hkind
  continued := by
    rintro least tokens first whole hfirst ⟨added, hadded, hwhole⟩
    simp only [hadded]
    exact hfirst.append hwhole
  finished _ left tokens _ := ⟨[], by simp, accounts_zero fun _ => .done⟩
  operated := by
    rintro least left token rest operator right whole hoperator - hright
      ⟨added, hadded, hwhole⟩
    have hothers := (hright.append hwhole).cons (entry_of_operator hoperator)
    refine ⟨.operator operator :: (right.value.entries ++ added), ?_, ?_⟩
    · simp [hadded, entries]
    · rwa [← Nat.add_assoc] at hothers

section

variable {terminal : Token}

theorem assignment_accounts (hterminal : terminal.kind = .endOfText)
    {token : Token} (rest : List Token) (hkind : token.kind = .identifier) :
    Accounts terminal (token :: rest)
      (assignment terminal (token :: rest)).value.entries
      (assignment terminal (token :: rest)).taken
      (assignment terminal (token :: rest)).faults := by
  have hinitializer := (accounts_invariant hterminal).expression 0 (rest.drop 1)
  have hending := hinitializer.append (accounts_expect terminal .semicolon _)
  have hsign := (accounts_expect terminal .assign rest).append hending
  have hwhole : Accounts terminal (token :: rest) (.identifier token :: _) _ _ :=
    hsign.cons ⟨rfl, hkind⟩
  have htaken : ∀ count, 1 + (1 + (count + 1)) = 2 + count + 1 := by omega
  have hdrop : ∀ count, (token :: rest).drop (2 + count) =
      (rest.drop 1).drop count := by
    intro count
    rw [List.drop_drop, Nat.add_right_comm 1 1 count, List.drop_succ_cons]
  simpa only [assignment, hdrop, htaken, entries, List.headD_cons,
    List.drop_succ_cons, List.drop_zero, List.singleton_append,
    List.append_assoc] using hwhole

theorem expressionStatement_accounts (hterminal : terminal.kind = .endOfText)
    (tokens : List Token) :
    Accounts terminal tokens (expressionStatement terminal tokens).value.entries
      (expressionStatement terminal tokens).taken
      (expressionStatement terminal tokens).faults := by
  have hbody := (accounts_invariant hterminal).expression 0 tokens
  simp only [expressionStatement, entries]
  split
  case isTrue hnext =>
    have hending : Accounts terminal _ [.terminator] 1 [] := accounts_held hnext
    simpa using hbody.append hending
  case isFalse hnext =>
    simpa using hbody.append (accounts_unterminated hnext)

theorem statement_accounts (hterminal : terminal.kind = .endOfText)
    (token : Token) (rest : List Token) :
    Accounts terminal (token :: rest)
      (statement terminal (token :: rest)).value.entries
      (statement terminal (token :: rest)).taken
      (statement terminal (token :: rest)).faults := by
  rw [statement, List.headD_cons]
  split
  case isTrue hkind => exact assignment_accounts hterminal rest hkind
  case isFalse => exact expressionStatement_accounts hterminal (token :: rest)

theorem statements_accounts (hterminal : terminal.kind = .endOfText)
    (tokens : List Token) :
    Accounts terminal tokens
      ((statements terminal tokens).value.flatMap Node.entries)
      (statements terminal tokens).taken
      (statements terminal tokens).faults := by
  fun_induction statements terminal tokens with
  | case1 => exact accounts_zero fun _ => .done
  | case2 => exact accounts_zero fun _ => .done
  | case3 token rest hkind first others ih =>
      rw [List.flatMap_cons]
      exact (statement_accounts hterminal token rest).append ih

theorem length_le_statements_taken {tokens : List Token}
    (hbody : ∀ token ∈ tokens, token.kind ≠ .endOfText) :
    tokens.length ≤ (statements terminal tokens).taken := by
  fun_induction statements terminal tokens with
  | case1 => simp
  | case2 token rest hkind => exact absurd hkind (hbody token (by simp))
  | case3 token rest hkind first others ih =>
      have hothers : ((token :: rest).drop first.taken).length ≤ others.taken :=
        ih fun later hlater => hbody later (List.mem_of_mem_drop hlater)
      rw [List.length_drop] at hothers
      simp only
      omega

end

end Reading

/-! ## Faults as diagnostics -/

/-- The diagnostic says which kind of token was required. -/
def Diagnostic.namesRequired (diagnostic : Diagnostic) : Bool :=
  "expected <".toList.isPrefixOf diagnostic.message.toList

def Fault.misfit? : Fault → Option (TokenKind × Token)
  | .unexpectedToken required found => some (required, found)
  | _ => none

namespace Fault

theorem namesRequired_diagnostic (fault : Fault) :
    fault.diagnostic.namesRequired = fault.misfit?.isSome := by
  cases fault with
  | unknownToken span =>
      change "expected <".toList.isPrefixOf
        ("unknown token <" ++ span.literal ++ ">").toList = false
      rw [String.toList_append, String.toList_append, List.append_assoc]
      rfl
  | unexpectedToken required found =>
      change "expected <".toList.isPrefixOf ("expected <" ++ required.name ++
        ">, found <" ++ found.kind.name ++ ">").toList = true
      simp
  | expectedExpression found =>
      change "expected <".toList.isPrefixOf ("expected expression, found <" ++
        found.kind.name ++ ">").toList = false
      rw [String.toList_append, String.toList_append, List.append_assoc]
      rfl

theorem filter_namesRequired (faults : List Fault) :
    (faults.map diagnostic).filter Diagnostic.namesRequired =
      (faults.filterMap misfit?).map fun (required, found) =>
        ⟨.error, "expected <" ++ required.name ++ ">, found <" ++
          found.kind.name ++ ">", found.span⟩ := by
  induction faults with
  | nil => rfl
  | cons fault faults ih =>
      rw [List.map_cons, List.filter_cons, namesRequired_diagnostic, ih]
      cases fault <;> rfl

end Fault

namespace Session

open Node

/-- Reading all statements of tokens without an inner end of text accounts for
every token: written out, the statements are filled by the tokens in order and
then by the end of text as often as the cursor has moved beyond it.  The slots
that hold another token are the diagnostics that name a required kind. -/
theorem allStatements_accounts_for_tokens (tokens : TokenSequence) (bag : Bag)
    (hbody : ∀ token ∈ tokens.body, token.kind ≠ .endOfText) :
    ∃ (statements : List Node) (surplus : Nat) (faults : List Fault)
        (reported : List Diagnostic),
      ((ofTokens tokens bag).perform .allStatements).1 = .nodes statements ∧
      ((ofTokens tokens bag).perform .allStatements).2.current =
        tokens.body.length + surplus ∧
      ((ofTokens tokens bag).perform .allStatements).2.bag.entries =
        bag.entries ++ reported ∧
      Fills (statements.flatMap entries)
        (tokens.body ++ List.replicate surplus tokens.terminal) [] faults ∧
      reported = faults.map Fault.diagnostic ∧
      reported.filter Diagnostic.namesRequired =
        (faults.filterMap Fault.misfit?).map fun (required, found) =>
          ⟨.error, "expected <" ++ required.name ++ ">, found <" ++
            found.kind.name ++ ">", found.span⟩ := by
  have hterminal := tokens.terminal_kind
  let reading := Reading.statements tokens.terminal tokens.body
  have hle : tokens.body.length ≤ reading.taken :=
    Reading.length_le_statements_taken hbody
  have hfills := Reading.statements_accounts hterminal tokens.body 0
  refine ⟨reading.value, reading.taken - tokens.body.length, reading.faults,
    reading.faults.map Fault.diagnostic, rfl, ?_, rfl, ?_, rfl,
    Fault.filter_namesRequired reading.faults⟩
  · rw [Nat.add_sub_cancel' hle]
    exact Nat.zero_add reading.taken
  · rw [List.drop_eq_nil_of_le hle, Nat.zero_add] at hfills
    exact hfills

def brokenAssignment : TokenSequence := (tokenize "x = ( ;").tokens

theorem brokenAssignment_accounted :
    (∀ token ∈ brokenAssignment.body, token.kind ≠ .endOfText) ∧
      ∃ statements surplus faults,
        ((ofTokens brokenAssignment Bag.empty).perform .allStatements).1 =
          .nodes statements ∧
        Fills (statements.flatMap entries)
          (brokenAssignment.body ++
            List.replicate surplus brokenAssignment.terminal) [] faults := by
  have hbody : ∀ token ∈ brokenAssignment.body, token.kind ≠ .endOfText := by
    decide +kernel
  obtain ⟨statements, surplus, faults, reported, hstatements, -, -, hfills, -⟩ :=
    allStatements_accounts_for_tokens brokenAssignment Bag.empty hbody
  exact ⟨hbody, statements, surplus, faults, hstatements, hfills⟩

end Session

end ExprLang

import ExprLang.Proofs.Reading.Terminators
import Mathlib.Data.List.Forall2

/-!
# How many faults are found

Every fault is charged to a token that was taken.  What a token takes in its
place pays for itself, an operator or an opening parenthesis pays for what is
missing after it, and only the last statement can owe two faults more than it
took tokens.  A token is reported once; a semicolon may be reported again where
a parenthesis should close, and the end of the text as often as something is
missing there.
-/

namespace ExprLang

namespace Reading

/-! ## Faults and the tokens that pay for them -/

/-- As many faults as tokens were taken from the list, and one more if the
reading stopped at a semicolon or went beyond the end of the list. -/
structure Charged (terminal : Token) (tokens : List Token)
    (reading : Reading Node) : Prop where
  within : reading.faults.length ≤ min reading.taken tokens.length + 1
  settled : reading.taken ≤ tokens.length →
    ((tokens.drop reading.taken).headD terminal).kind ≠ .semicolon →
    reading.faults.length ≤ reading.taken

/-- Each operator pays for its right operand; none is read after a semicolon. -/
structure Paid (terminal : Token) (tokens : List Token)
    (reading : Reading Node) : Prop where
  within : reading.faults.length ≤ min reading.taken tokens.length
  stopped : (tokens.headD terminal).kind = .semicolon → reading.taken = 0

theorem expect_faults_length_le (terminal : Token) (required : TokenKind)
    (tokens : List Token) :
    (expect terminal required tokens).faults.length ≤ 1 := by
  simp only [expect]
  split <;> simp

theorem kind_ne_semicolon_of_ofToken? {token : Token} {operator : Operator}
    (h : Operator.ofToken? token = some operator) :
    token.kind ≠ .semicolon := by
  intro hkind
  simp [Operator.ofToken?, OperatorKind.ofTokenKind?, hkind] at h

theorem charged_invariant (terminal : Token) :
    Invariant terminal (Charged terminal) (fun _ => Charged terminal)
      (fun _ _ => Paid terminal) where
  ended := ⟨by simp, by simp⟩
  semicolon := by
    intro token rest hkind
    refine ⟨by simp, ?_⟩
    intro _ hnext
    exact absurd hkind hnext
  integer := by
    intro token rest _
    exact ⟨by simp, by simp⟩
  parenthesized := by
    intro token rest inner _ hinner
    have hclosing := expect_faults_length_le terminal .rightParen
      (rest.drop inner.taken)
    have hwithin := hinner.within
    refine ⟨?_, ?_⟩
    · simp only [List.length_append, List.length_cons]
      omega
    · intro htaken _
      simp only [List.length_append, List.length_cons] at htaken ⊢
      omega
  identifier := by
    intro token rest _
    exact ⟨by simp, by simp⟩
  unexpected := by
    intro token rest _ _ _ _
    exact ⟨by simp, by simp⟩
  continued := by
    intro least tokens first whole hfirst hwhole
    have hfirstWithin := hfirst.within
    have hwholeWithin := hwhole.within
    rw [List.length_drop] at hwholeWithin
    refine ⟨?_, ?_⟩
    · simp only [List.length_append]
      omega
    · intro htaken hnext
      simp only [List.length_append] at htaken ⊢
      -- If nothing follows the operand, then it stopped where the whole does.
      have hoperand : first.faults.length ≤ first.taken := by
        apply hfirst.settled (by omega)
        intro hkind
        simp only [hwhole.stopped hkind, Nat.add_zero] at hnext
        exact hnext hkind
      omega
  finished := by
    intro least left tokens _
    exact ⟨by simp, fun _ => rfl⟩
  operated := by
    intro least left token rest operator right whole hoperator _ hright hwhole
    have hrightWithin := hright.within
    have hwholeWithin := hwhole.within
    rw [List.length_drop] at hwholeWithin
    refine ⟨?_, ?_⟩
    · simp only [List.length_append, List.length_cons]
      omega
    · intro hkind
      exact absurd hkind (kind_ne_semicolon_of_ofToken? hoperator)

structure StatementCharged (tokens : List Token)
    (reading : Reading Node) : Prop where
  within : reading.faults.length ≤ min reading.taken tokens.length + 2
  settled : reading.taken ≤ tokens.length →
    reading.faults.length ≤ reading.taken

theorem assignment_charged (terminal token : Token) (rest : List Token) :
    StatementCharged (token :: rest) (assignment terminal (token :: rest)) := by
  have hsign := expect_faults_length_le terminal .assign rest
  have hinitializer :=
    ((charged_invariant terminal).expression 0 (rest.drop 1)).within
  have hending := expect_faults_length_le terminal .semicolon
    ((token :: rest).drop (2 + (expression terminal 0 (rest.drop 1)).taken))
  rw [List.length_drop] at hinitializer
  refine ⟨?_, ?_⟩
  · simp only [assignment, List.drop_succ_cons, List.drop_zero,
      List.length_append, List.length_cons]
    omega
  · intro htaken
    simp only [assignment, List.drop_succ_cons, List.drop_zero,
      List.length_append, List.length_cons] at htaken ⊢
    omega

theorem expressionStatement_charged (terminal : Token) (tokens : List Token) :
    StatementCharged tokens (expressionStatement terminal tokens) := by
  obtain ⟨hwithin, hsettled⟩ :=
    (charged_invariant terminal).expression 0 tokens
  simp only [expressionStatement]
  split
  case isTrue => exact ⟨by simp only; omega, by simp only; omega⟩
  case isFalse hnext =>
    exact ⟨by simp only; omega, fun htaken => hsettled htaken hnext⟩

theorem statement_charged (terminal token : Token) (rest : List Token) :
    StatementCharged (token :: rest) (statement terminal (token :: rest)) := by
  rw [statement]
  split
  · exact assignment_charged terminal token rest
  · exact expressionStatement_charged terminal (token :: rest)

theorem statements_faults_length_le (terminal : Token) (tokens : List Token) :
    (statements terminal tokens).faults.length ≤ tokens.length + 2 := by
  fun_induction statements terminal tokens with
  | case1 => simp
  | case2 => simp
  | case3 token rest hkind first others ih =>
      have hfirst : StatementCharged (token :: rest) first :=
        statement_charged terminal token rest
      have hwithin := hfirst.within
      have hsettled := hfirst.settled
      have hothers : others.faults.length ≤
          ((token :: rest).drop first.taken).length + 2 := ih
      rw [List.length_drop] at hothers
      rw [List.length_append]
      by_cases htaken : first.taken < (token :: rest).length
      · omega
      · -- Nothing is left for further statements.
        have hnone : others.faults = [] := by
          have hdrop : (token :: rest).drop first.taken = [] :=
            List.drop_eq_nil_of_le (Nat.le_of_not_lt htaken)
          simp only [others, hdrop]
          rw [statements]
        rw [hnone, List.length_nil]
        omega

example : (statements (Token.endOfText 1)
    [⟨.identifier, "x", Span.covering 0 ['x'], .text "x"⟩]).faults.length = 3 := by
  decide +kernel

end Reading

/-! ## Faults by the tokens of which they are said -/

/-- What may be said of one token: nothing, one fault, or of a semicolon a fault
and then that it stands where a parenthesis should close. -/
inductive Fault.SaidOf (token : Token) : List Fault → Prop
  | nothing : SaidOf token []
  | once {fault : Fault} (hfound : fault.found? = some token) :
      SaidOf token [fault]
  | again {fault : Fault} (hkind : token.kind = .semicolon)
      (hfound : fault.found? = some token) :
      SaidOf token [fault, .unexpectedToken .rightParen token]

theorem Fault.diagnostic_of_semicolon {token : Token}
    (hkind : token.kind = .semicolon) :
    (unexpectedToken .rightParen token).diagnostic =
      ⟨.error, "expected <)>, found <;>", token.span⟩ := by
  have hmessage : "expected <" ++ TokenKind.rightParen.name ++ ">, found <" ++
      TokenKind.semicolon.name ++ ">" = "expected <)>, found <;>" := by
    decide +kernel
  rw [← hmessage, ← hkind]
  rfl

theorem Fault.SaidOf.found {token : Token} {group : List Fault}
    (h : SaidOf token group) : ∀ fault ∈ group, fault.found? = some token := by
  cases h with
  | nothing => simp
  | once hfound => simpa using hfound
  | again _ hfound => simpa [found?] using hfound

theorem Fault.foundAmong_flatten {tokens : List Token}
    {groups : List (List Fault)} (h : List.Forall₂ SaidOf tokens groups) :
    FoundAmong tokens groups.flatten := by
  induction h with
  | nil => simp [FoundAmong]
  | @cons token group tokens groups hgroup _ ih =>
      intro fault hfault
      rw [List.flatten_cons, List.mem_append] at hfault
      rcases hfault with hfault | hfault
      · exact ⟨token, List.mem_cons_self, hgroup.found fault hfault⟩
      · exact ih.of_tail token fault hfault

theorem Fault.saidOf_nothing (tokens : List Token) :
    List.Forall₂ SaidOf tokens (tokens.map fun _ => []) := by
  induction tokens with
  | nil => exact .nil
  | cons token tokens ih => exact .cons .nothing ih

namespace Node

namespace Fills

variable {entries : List Entry} {tokens others rest : List Token}
  {faults : List Fault} {token : Token}

theorem of_endsBroken {entry : Entry}
    (h : Fills (entry :: entries) (token :: others) rest faults)
    (hentry : entry.EndsBroken) (hkind : token.kind = .semicolon) :
    ∃ said later, faults = said ++ later ∧
      (said = [] ∨ said = [.unexpectedToken .rightParen token]) ∧
      Fills entries others rest later := by
  cases h with
  | held _ hothers => exact ⟨[], faults, rfl, .inl rfl, hothers⟩
  | misfit hmisfit hothers =>
      rcases hentry with rfl | rfl
      · exact ⟨[_], _, rfl, .inr rfl, hothers⟩
      · exact absurd hkind hmisfit
  | broken => exact hentry.elim
  | interrupted => exact hentry.elim
  | unterminated hnext _ => exact absurd hkind (hnext token rfl)

theorem exists_groups (h : Fills entries tokens rest faults)
    (hended : BrokenEnded entries) :
    ∃ taken groups, tokens = taken ++ rest ∧
      List.Forall₂ Fault.SaidOf taken groups ∧ groups.flatten = faults := by
  -- An interruption is resolved by the entry after it, so two are used at once.
  induction hlength : entries.length using Nat.strongRecOn
    generalizing entries tokens rest faults with
  | ind length ih =>
      subst hlength
      cases h with
      | done => exact ⟨[], [], rfl, .nil, rfl⟩
      | held _ hothers =>
          obtain ⟨taken, groups, rfl, hgroups, rfl⟩ :=
            ih _ (by simp) hothers hended.tail rfl
          exact ⟨_ :: taken, [] :: groups, rfl, .cons .nothing hgroups, rfl⟩
      | misfit _ hothers =>
          obtain ⟨taken, groups, rfl, hgroups, rfl⟩ :=
            ih _ (by simp) hothers hended.tail rfl
          exact ⟨_ :: taken, [_] :: groups, rfl, .cons (.once rfl) hgroups, rfl⟩
      | broken _ hothers =>
          obtain ⟨taken, groups, rfl, hgroups, rfl⟩ :=
            ih _ (by simp) hothers hended.tail rfl
          exact ⟨_ :: taken, [_] :: groups, rfl, .cons (.once rfl) hgroups, rfl⟩
      | interrupted hkind hothers =>
          obtain ⟨entry, more, rfl, hentry⟩ := hended [] _ _ rfl
          obtain ⟨said, later, rfl, hsaid, hmore⟩ :=
            hothers.of_endsBroken hentry hkind
          obtain ⟨taken, groups, rfl, hgroups, rfl⟩ :=
            ih _ (by simp only [List.length_cons]; omega) hmore
              hended.tail.tail rfl
          refine ⟨_ :: taken, (_ :: said) :: groups, rfl, .cons ?_ hgroups, rfl⟩
          rcases hsaid with rfl | rfl
          · exact .once rfl
          · exact .again hkind rfl
      | unterminated _ hothers =>
          obtain ⟨taken, groups, rfl, hgroups, rfl⟩ :=
            ih _ (by simp) hothers hended.tail rfl
          exact ⟨taken, groups, rfl, hgroups, rfl⟩

end Fills

end Node

namespace Reading

theorem statements_groups {terminal : Token}
    (hterminal : terminal.kind = .endOfText) (tokens : List Token) :
    ∃ groups ending,
      (statements terminal tokens).faults = groups.flatten ++ ending ∧
      List.Forall₂ Fault.SaidOf tokens groups ∧
      ∀ fault ∈ ending, fault.found? = some terminal := by
  have hfills := statements_accounts hterminal tokens 0
  obtain ⟨taken, groups, hsplit, hgroups, hflatten⟩ :=
    hfills.exists_groups
      (Node.brokenEnded_flatMap (statements_isStatement terminal tokens))
  simp only [Nat.zero_add, List.replicate_zero, List.append_nil] at hsplit
  generalize (statements terminal tokens).taken = count at hsplit
  -- The groups of all tokens and of the ends of the text after them.
  have hall := List.rel_append hgroups (Fault.saidOf_nothing (tokens.drop count))
  dsimp only at hall
  rw [← hsplit] at hall
  have hnone : ((tokens.drop count).map fun _ => ([] : List Fault)).flatten =
      [] := by simp
  generalize hextended : groups ++ (tokens.drop count).map (fun _ => []) =
    extended at hall
  have hfaults : extended.flatten = (statements terminal tokens).faults := by
    rw [← hextended, List.flatten_append, hnone, List.append_nil, hflatten]
  have hbody := List.forall₂_take tokens.length hall
  have hending := List.forall₂_drop tokens.length hall
  rw [List.take_left] at hbody
  rw [List.drop_left] at hending
  refine ⟨extended.take tokens.length, (extended.drop tokens.length).flatten,
    ?_, hbody, ?_⟩
  · rw [← List.flatten_append, List.take_append_drop, hfaults]
  · intro fault hfault
    obtain ⟨token, htoken, hfound⟩ := Fault.foundAmong_flatten hending fault hfault
    rwa [List.eq_of_mem_replicate htoken] at hfound

end Reading

namespace Session

/-- Reading all statements of any tokens adds at most two diagnostics more than
there are tokens before the terminal one.  They come in groups, one for each of
these tokens, with at most one diagnostic, or with two for a semicolon, of which
the second says that a parenthesis should close there.  Diagnostics about the
terminal token come last. -/
theorem allStatements_reports_sparingly (tokens : TokenSequence) (bag : Bag) :
    let after := ((ofTokens tokens bag).perform .allStatements).2.bag
    after.size ≤ bag.size + (tokens.body.length + 2) ∧
      (∃ groups ending,
        after.entries =
          bag.entries ++ (groups.flatten ++ ending).map Fault.diagnostic ∧
        List.Forall₂ Fault.SaidOf tokens.body groups ∧
        ∀ fault ∈ ending, fault.found? = some tokens.terminal) ∧
      ∀ token : Token, token.kind = .semicolon →
        (Fault.unexpectedToken .rightParen token).diagnostic =
          ⟨.error, "expected <)>, found <;>", token.span⟩ := by
  refine ⟨?_, ?_, ?_⟩
  · have hcount :=
      Reading.statements_faults_length_le tokens.terminal tokens.body
    change (bag.entries ++ (Reading.statements tokens.terminal
      tokens.body).faults.map Fault.diagnostic).length ≤ _
    rw [List.length_append, List.length_map]
    exact Nat.add_le_add_left hcount bag.entries.length
  · obtain ⟨groups, ending, hfaults, hgroups, hending⟩ :=
      Reading.statements_groups tokens.terminal_kind tokens.body
    refine ⟨groups, ending, ?_, hgroups, hending⟩
    rw [← hfaults]
    rfl
  · exact fun token hkind => Fault.diagnostic_of_semicolon hkind

end Session

end ExprLang

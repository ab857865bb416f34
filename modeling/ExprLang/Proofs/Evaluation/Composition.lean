import ExprLang.Proofs.Evaluation.Source
import ExprLang.Proofs.Lexicon.Placement

/-!
# Programs one after another

Nothing but blanks need stand between two programs.  When neither has
diagnostics, a statement of the first cannot go on into the second, because no
statement begins with an operator or a semicolon.  So the statements are those
of the first and then those of the second, and they are evaluated in order.
-/

namespace ExprLang

theorem Reading.statements_append {terminal terminal' : Token}
    {tokens others : List Token} (hterminal : terminal.kind = .endOfText)
    (hterminal' : terminal'.kind = .endOfText)
    (htokens : ∀ token ∈ tokens, token.kind ≠ .endOfText)
    (hothers : ∀ token ∈ others, token.kind ≠ .endOfText)
    (hfirst : (statements terminal tokens).faults = [])
    (hsecond : (statements terminal' others).faults = []) :
    statements terminal' (tokens ++ others) =
      ⟨(statements terminal tokens).value ++
          (statements terminal' others).value, [],
        (tokens ++ others).length⟩ := by
  obtain ⟨segments, rfl, hspelled⟩ :=
    statements_spelled hterminal htokens hfirst
  obtain ⟨segments', rfl, hspelled'⟩ :=
    statements_spelled hterminal' hothers hsecond
  rw [← List.flatten_append]
  exact statements_of_spelled hterminal' (List.rel_append hspelled hspelled')
    (List.forall_mem_append.mpr
      ⟨statements_grouped terminal _, statements_grouped terminal' _⟩)

theorem evaluate_append (first second : List Node) :
    evaluate (first ++ second) =
      evaluate first >>= fun values => (values ++ ·) <$> evaluate second := by
  rw [evaluate_eq, evaluate_eq, evaluate_eq, List.mapM_append]
  rfl

theorem analyze_joined {first second gap : String}
    (hfirst : (analyze first).diagnostics = [])
    (hsecond : (analyze second).diagnostics = []) (hgap : gap ≠ "")
    (hblank : ∀ character ∈ gap.toList, character ∈ Lexicon.blanks) :
    (analyze (first ++ gap ++ second)).diagnostics = [] ∧
      (analyze (first ++ gap ++ second)).statements =
        (analyze first).statements ++ (analyze second).statements.map
          (Node.shifted (first.length + gap.length)) := by
  obtain ⟨hlexical, hgrammar⟩ := faults_eq_nil_of_clean hfirst
  obtain ⟨hlexical', hgrammar'⟩ := faults_eq_nil_of_clean hsecond
  have hclosed : ∀ fault ∈ (tokenize first).faults,
      '\x22' ∉ fault.span.literal.toList := by
    rw [hlexical]
    exact List.forall_mem_nil _
  obtain ⟨hbody, hterminal, hfaults⟩ := tokenize_joined hclosed hgap hblank second
  generalize first.length + gap.length = distance at hbody hterminal hfaults ⊢
  have hshifted := Reading.statements_shifted distance
    (tokenize second).tokens.terminal (tokenize second).tokens.body
  have hothers : ∀ token ∈
      (tokenize second).tokens.body.map (Token.shifted distance),
      token.kind ≠ .endOfText :=
    List.forall_mem_map.mpr kind_ne_endOfText_of_mem_body
  have hsecondFaults : (Reading.statements
      ((tokenize second).tokens.terminal.shifted distance)
      ((tokenize second).tokens.body.map (Token.shifted distance))).faults =
        [] := by
    rw [hshifted]
    exact List.map_eq_nil_iff.mpr hgrammar'
  have hlast : ((tokenize second).tokens.terminal.shifted distance).kind =
      .endOfText :=
    (tokenize second).tokens.terminal_kind
  have hread := Reading.statements_append (tokenize first).tokens.terminal_kind
    hlast kind_ne_endOfText_of_mem_body hothers hgrammar hsecondFaults
  rw [hshifted, ← hbody, ← hterminal] at hread
  refine ⟨?_, ?_⟩
  · simp [Analysis.diagnostics, analyze, hread, hfaults, hlexical, hlexical']
  · simp only [analyze, hread]

/-- Two programs with blanks between them have the statements of the first and
then those of the second, further on by what stands before.  The values are
those of both, or the first failure there is; the second program fails for the
same reason further on. -/
theorem evaluateSource_joined {first second gap : String}
    (hfirst : (analyze first).diagnostics = [])
    (hsecond : (analyze second).diagnostics = []) (hgap : gap ≠ "")
    (hblank : ∀ character ∈ gap.toList, character ∈ Lexicon.blanks) :
    let distance := first.length + gap.length
    let joined := first ++ gap ++ second
    (analyze joined).diagnostics = [] ∧
      (analyze joined).statements = (analyze first).statements ++
        (analyze second).statements.map (Node.shifted distance) ∧
      (∀ values others, evaluateSource first = .ok values →
        evaluateSource second = .ok others →
          evaluateSource joined = .ok (values ++ others)) ∧
      (∀ failure, evaluateSource first = .error failure →
        evaluateSource joined = .error failure) ∧
      ∀ values failure, evaluateSource first = .ok values →
        evaluateSource second = .error failure →
          ∃ refusal, failure = .refused refusal ∧
            evaluateSource joined =
              .error (.refused (refusal.shifted distance)) ∧
            (refusal.shifted distance).explanation =
              { refusal.explanation with
                span := refusal.explanation.span.map (Span.shifted distance) } := by
  obtain ⟨hclean, hstatements⟩ := analyze_joined hfirst hsecond hgap hblank
  refine ⟨hclean, hstatements, ?_⟩
  rw [evaluateSource_of_clean hfirst, evaluateSource_of_clean hsecond,
    evaluateSource_of_clean hclean, hstatements, evaluate_append,
    evaluate_shifted]
  generalize evaluate (analyze first).statements = outcome,
    evaluate (analyze second).statements = outcome'
  cases outcome with
  | error refusal =>
      refine ⟨?_, ?_, ?_⟩
      · rintro values others ⟨⟩
      · exact fun failure h => h
      · rintro values failure ⟨⟩
  | ok values =>
      cases outcome' with
      | error refusal =>
          refine ⟨?_, ?_, ?_⟩
          · rintro _ others _ ⟨⟩
          · rintro failure ⟨⟩
          · rintro _ failure _ ⟨⟩
            exact ⟨refusal, rfl, rfl, refusal.explanation_shifted _⟩
      | ok others =>
          refine ⟨?_, ?_, ?_⟩
          · rintro _ _ ⟨⟩ ⟨⟩
            rfl
          · rintro failure ⟨⟩
          · rintro _ failure _ ⟨⟩

/-- A sum before a negative number, which it does not take in, and a division
by zero further on. -/
theorem joined_refused :
    (analyze "7 - 1").diagnostics = [] ∧
      (analyze "-3; 4 % 0").diagnostics = [] ∧
      ∃ refusal, evaluateSource "-3; 4 % 0" = .error (.refused refusal) ∧
        evaluateSource ("7 - 1" ++ "\n\t" ++ "-3; 4 % 0") =
          .error (.refused (refusal.shifted 7)) := by
  have hfirst : (analyze "7 - 1").diagnostics = [] := by decide +kernel
  have hsecond : (analyze "-3; 4 % 0").diagnostics = [] := by decide +kernel
  have hvalues : evaluateSource "7 - 1" = .ok [6] := by decide +kernel
  have hblank : ∀ character ∈ "\n\t".toList, character ∈ Lexicon.blanks := by
    simp [Lexicon.blanks]
  obtain ⟨-, -, -, -, hfails⟩ :=
    evaluateSource_joined hfirst hsecond (by decide : "\n\t" ≠ "") hblank
  cases houtcome : evaluateSource "-3; 4 % 0" with
  | ok values =>
      have hrefused : (evaluateSource "-3; 4 % 0").isOk = false := by
        decide +kernel
      rw [houtcome] at hrefused
      cases hrefused
  | error failure =>
      obtain ⟨refusal, rfl, hjoined, -⟩ := hfails [6] failure hvalues houtcome
      exact ⟨hfirst, hsecond, refusal, rfl, hjoined⟩

end ExprLang

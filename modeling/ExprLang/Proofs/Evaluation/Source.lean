import ExprLang.Analysis
import ExprLang.Proofs.Evaluation.Course
import ExprLang.Proofs.Lexicon.Lexemes
import ExprLang.Proofs.Reading.Spelling

/-!
# Evaluating sources

A source is evaluated only when it has no diagnostics.  Then its tokens spell
its statements, so the tree holds no error node, and its identifiers and
operators are tokens of the source.  Nothing but such a token can be what a
refusal is about.
-/

namespace ExprLang

/-! ## Refusals and the tokens they are about -/

/-- The refusal is about an identifier or about the operator of a division, and
it names the span of this token. -/
def Refusal.ArisesFrom (tokens : List Token) (refusal : Refusal) : Prop :=
  ∃ token ∈ tokens, refusal.explanation.span = some token.span ∧
    ((token.kind = .identifier ∧
        (refusal = .assignment token ∨ refusal = .reference token)) ∨
      ((token.kind = .slash ∨ token.kind = .percent) ∧
        refusal = .divisionByZero token ∧
          refusal.explanation.message = "division by zero"))

theorem Refusal.ArisesFrom.mono {tokens others : List Token}
    {refusal : Refusal} (h : refusal.ArisesFrom tokens)
    (hsubset : tokens ⊆ others) : refusal.ArisesFrom others := by
  obtain ⟨token, htoken, hcause⟩ := h
  exact ⟨token, hsubset htoken, hcause⟩

theorem Operator.kind_of_divides {token : Token} {operator : Operator}
    (h : ofToken? token = some operator)
    (hdivides : operator.kind.divides = true) :
    token.kind = .slash ∨ token.kind = .percent := by
  simp only [ofToken?, Option.map_eq_some_iff] at h
  obtain ⟨kind, hkind, rfl⟩ := h
  cases htoken : token.kind <;>
    simp only [htoken, OperatorKind.ofTokenKind?, Option.some.injEq,
      reduceCtorEq] at hkind <;>
    subst hkind <;> first | contradiction | simp

theorem Operator.outcome_eq_error {token : Token} {operator : Operator}
    (h : ofToken? token = some operator) {left right : Int} {refusal : Refusal}
    (hrefusal : (operator.course left right).outcome = .error refusal) :
    (operator.kind.divides = true ∧ right = 0) ∧
      refusal.ArisesFrom [token] := by
  rw [Operator.course] at hrefusal
  split at hrefusal
  case isTrue hzero =>
    cases hrefusal
    rw [token_of_ofToken? h]
    exact ⟨hzero, token, List.mem_singleton_self token, rfl,
      .inr ⟨kind_of_divides h hzero.1, rfl, rfl⟩⟩
  case isFalse => cases hrefusal

namespace Node

theorem outcome_binary (left right : Node) (operator : Operator) :
    (binary left operator right).course.outcome =
      left.course.outcome >>= fun first =>
        right.course.outcome >>= fun second =>
          (operator.course first second).outcome := by
  simp only [course, Course.outcome_andThen]

theorem SpelledBy.arisesFrom {node : Node} {tokens : List Token}
    (h : node.SpelledBy tokens) {refusal : Refusal}
    (hrefusal : node.course.outcome = .error refusal) :
    refusal.ArisesFrom tokens := by
  induction h with
  | number _ => cases hrefusal
  | @reference token hkind =>
      cases hrefusal
      exact ⟨token, List.mem_singleton_self token, rfl, .inl ⟨hkind, .inr rfl⟩⟩
  | parenthesized _ _ _ ih =>
      refine (ih hrefusal).mono ?_
      exact List.Subset.trans (List.subset_append_left _ _)
        (List.subset_cons_self _ _)
  | @binary left right operator token before after _ hoperator _ ihLeft ihRight =>
      rw [outcome_binary] at hrefusal
      cases hleft : left.course.outcome with
      | error other =>
          rw [hleft] at hrefusal
          cases hrefusal
          exact (ihLeft hleft).mono (List.subset_append_left _ _)
      | ok first =>
          cases hright : right.course.outcome with
          | error other =>
              rw [hleft, hright] at hrefusal
              cases hrefusal
              refine (ihRight hright).mono ?_
              exact List.Subset.trans (List.subset_cons_self _ _)
                (List.subset_append_right _ _)
          | ok second =>
              rw [hleft, hright] at hrefusal
              have harises := (Operator.outcome_eq_error hoperator hrefusal).2
              exact harises.mono (by simp)

theorem StatementSpelledBy.arisesFrom {node : Node} {tokens : List Token}
    (h : node.StatementSpelledBy tokens) {refusal : Refusal}
    (hrefusal : node.statementCourse.outcome = .error refusal) :
    refusal.ArisesFrom tokens := by
  cases h with
  | @assignment identifier _ _ _ _ hidentifier _ _ _ =>
      cases hrefusal
      exact ⟨identifier, List.mem_cons_self, rfl, .inl ⟨hidentifier, .inl rfl⟩⟩
  | expression hbody _ => exact hbody.arisesFrom hrefusal
  | terminated hbody _ _ =>
      exact (hbody.arisesFrom hrefusal).mono (List.subset_append_left _ _)

/-! ## Statements that have values -/

def isReference : Node → Bool
  | reference _ => true
  | _ => false

def DividesByZero : Node → Prop
  | binary _ operator right =>
      operator.kind.divides = true ∧ right.course.outcome = .ok 0
  | _ => False

/-- An expression statement in which no variable occurs and no divisor
evaluates to zero. -/
def Evaluable (statement : Node) : Prop :=
  ∃ body, statement = .expressionStatement body ∧
    ∀ entry ∈ body.preorder 0,
      entry.2.isReference = false ∧ ¬ entry.2.DividesByZero

theorem SpelledBy.valued_iff {node : Node} {tokens : List Token}
    (h : node.SpelledBy tokens) (depth : Nat) :
    (∃ number, node.course.outcome = .ok number) ↔
      ∀ entry ∈ node.preorder depth,
        entry.2.isReference = false ∧ ¬ entry.2.DividesByZero := by
  induction h generalizing depth with
  | number _ => simp [preorder, isReference, DividesByZero, course, Course.value]
  | reference _ => simp [preorder, isReference, course, Course.refused]
  | parenthesized _ _ _ ih =>
      rw [preorder, List.forall_mem_cons, ← ih (depth + 1)]
      simp [isReference, DividesByZero, course]
  | @binary left right operator token _ _ _ hoperator _ ihLeft ihRight =>
      rw [preorder, List.forall_mem_cons, List.forall_mem_append,
        ← ihLeft (depth + 1), ← ihRight (depth + 1), outcome_binary]
      cases left.course.outcome with
      | error refusal => simp [bind, Except.bind]
      | ok first =>
          cases hright : right.course.outcome with
          | error refusal => simp [bind, Except.bind]
          | ok second =>
              simp only [bind, Except.bind, isReference, DividesByZero, hright,
                Except.ok.injEq, exists_eq', and_self, and_true, true_and]
              cases houtcome : (operator.course first second).outcome with
              | error refusal =>
                  simp [(Operator.outcome_eq_error hoperator houtcome).1]
              | ok number =>
                  simp only [Except.ok.injEq, exists_eq', true_iff]
                  rintro hzero
                  rw [Operator.course, if_pos hzero] at houtcome
                  cases houtcome

theorem evaluable_expressionStatement (body : Node) :
    (expressionStatement body).Evaluable ↔
      ∀ entry ∈ body.preorder 0,
        entry.2.isReference = false ∧ ¬ entry.2.DividesByZero := by
  simp [Evaluable]

theorem StatementSpelledBy.valued_iff {node : Node} {tokens : List Token}
    (h : node.StatementSpelledBy tokens) :
    (∃ number, node.statementCourse.outcome = .ok number) ↔
      node.Evaluable := by
  cases h with
  | assignment _ _ _ _ =>
      simp [statementCourse, Course.refused, Evaluable]
  | expression hbody _ =>
      exact (hbody.valued_iff 0).trans (evaluable_expressionStatement _).symm
  | terminated hbody _ _ =>
      exact (hbody.valued_iff 0).trans (evaluable_expressionStatement _).symm

end Node

/-! ## Whole sources -/

theorem Analysis.isClean_iff_nil {analysis : Analysis} :
    analysis.isClean = true ↔ analysis.diagnostics = [] :=
  List.isEmpty_iff

theorem faults_eq_nil_of_clean {source : String}
    (h : (analyze source).diagnostics = []) :
    (tokenize source).faults = [] ∧ (analyze source).grammarFaults = [] := by
  rw [Analysis.diagnostics, List.map_eq_nil_iff, List.append_eq_nil_iff] at h
  exact h

theorem kind_ne_endOfText_of_mem_body {source : String} :
    ∀ token ∈ (tokenize source).tokens.body, token.kind ≠ .endOfText :=
  fun token htoken => (tokenize_isLexical source token htoken).kind_ne_endOfText

theorem analyze_spelled {source : String}
    (h : (analyze source).diagnostics = []) :
    ∃ segments, segments.flatten = (tokenize source).tokens.body ∧
      List.Forall₂ Node.StatementSpelledBy (analyze source).statements
        segments :=
  Reading.statements_spelled (tokenize source).tokens.terminal_kind
    kind_ne_endOfText_of_mem_body (faults_eq_nil_of_clean h).2

theorem exists_valued_iff {nodes : List Node} {segments : List (List Token)}
    (h : List.Forall₂ Node.StatementSpelledBy nodes segments) :
    (∃ numbers, Valued nodes numbers) ↔ ∀ node ∈ nodes, node.Evaluable := by
  induction h with
  | nil => simp [Valued]
  | cons hfirst _ ih =>
      rw [List.forall_mem_cons, ← ih, ← hfirst.valued_iff]
      constructor
      · rintro ⟨numbers, hnumbers⟩
        cases hnumbers with
        | cons hnumber hothers => exact ⟨⟨_, hnumber⟩, _, hothers⟩
      · rintro ⟨⟨number, hnumber⟩, numbers, hothers⟩
        exact ⟨number :: numbers, .cons hnumber hothers⟩

theorem arisesFrom_of_evaluate {nodes : List Node} {segments : List (List Token)}
    (h : List.Forall₂ Node.StatementSpelledBy nodes segments)
    {refusal : Refusal} (hrefusal : evaluate nodes = .error refusal) :
    refusal.ArisesFrom segments.flatten := by
  obtain ⟨node, hnode, houtcome⟩ := exists_refused_of_evaluate hrefusal
  clear hrefusal
  induction h with
  | nil => simp at hnode
  | cons hfirst _ ih =>
      rw [List.flatten_cons]
      rcases List.mem_cons.mp hnode with rfl | hnode
      · exact (hfirst.arisesFrom houtcome).mono (List.subset_append_left _ _)
      · exact (ih hnode).mono (List.subset_append_right _ _)

theorem evaluateSource_of_clean {source : String}
    (h : (analyze source).diagnostics = []) :
    evaluateSource source =
      (evaluate (analyze source).statements).mapError
        EvaluationFailure.refused := by
  rw [evaluateSource, analyzeStrictly]
  simp only [if_pos (Analysis.isClean_iff_nil.mpr h)]
  cases evaluate (analyze source).statements <;> rfl

theorem evaluateSource_of_faulty {source : String}
    (h : (analyze source).diagnostics ≠ []) :
    evaluateSource source = .error (.rejected
      ⟨(analyze source).diagnostics, (analyze source).report .plain⟩) := by
  have hfaulty : ¬ (analyze source).isClean = true :=
    mt Analysis.isClean_iff_nil.mp h
  rw [evaluateSource, analyzeStrictly]
  simp only [if_neg hfaulty]

/-- A source with diagnostics is rejected with them and with its report.  Any
other source has one value for each statement, or it is refused for an
identifier or a division among its tokens; it has values exactly if all its
statements are evaluable.  Neither reading nor evaluation has a limit on how
deeply expressions nest, so a bounded stack that runs out is no outcome here. -/
theorem evaluateSource_outcome (source : String) :
    (∀ rejection, evaluateSource source = .error (.rejected rejection) ↔
      (analyze source).diagnostics ≠ [] ∧
        rejection.diagnostics = (analyze source).diagnostics ∧
          rejection.report = (analyze source).report .plain) ∧
    ((analyze source).diagnostics = [] →
      (∃ values, evaluateSource source = .ok values ∧
        Valued (analyze source).statements values) ∨
      ∃ refusal, evaluateSource source = .error (.refused refusal) ∧
        refusal.ArisesFrom (tokenize source).tokens.body) ∧
    ((∃ values, evaluateSource source = .ok values) ↔
      (analyze source).diagnostics = [] ∧
        ∀ statement ∈ (analyze source).statements, statement.Evaluable) := by
  by_cases hclean : (analyze source).diagnostics = []
  · obtain ⟨segments, hflatten, hspelled⟩ := analyze_spelled hclean
    rw [evaluateSource_of_clean hclean, ← exists_valued_iff hspelled]
    cases houtcome : evaluate (analyze source).statements with
    | ok values =>
        have hvalues := evaluate_eq_ok_iff.mp houtcome
        refine ⟨?_, fun _ => .inl ⟨values, rfl, hvalues⟩, ?_⟩
        · simp [hclean, Except.mapError]
        · exact iff_of_true ⟨values, rfl⟩ ⟨hclean, values, hvalues⟩
    | error refusal =>
        have harises := arisesFrom_of_evaluate hspelled houtcome
        rw [hflatten] at harises
        refine ⟨?_, fun _ => .inr ⟨refusal, rfl, harises⟩, ?_⟩
        · simp [hclean, Except.mapError]
        · refine iff_of_false (by simp [Except.mapError]) ?_
          rintro ⟨-, values, hvalues⟩
          rw [evaluate_of_valued hvalues] at houtcome
          cases houtcome
  · rw [evaluateSource_of_faulty hclean]
    refine ⟨?_, fun h => absurd h hclean, by simp [hclean]⟩
    rintro ⟨diagnostics, report⟩
    simp [hclean, eq_comm]

theorem innerDivision_refused :
    (analyze "7; 1 / (8 % (3 - 3))").diagnostics = [] ∧
      ∃ refusal, evaluateSource "7; 1 / (8 % (3 - 3))" =
          .error (.refused refusal) ∧
        refusal.ArisesFrom (tokenize "7; 1 / (8 % (3 - 3))").tokens.body := by
  have hclean : (analyze "7; 1 / (8 % (3 - 3))").diagnostics = [] := by
    decide +kernel
  obtain ⟨values, hvalues, -⟩ | hrefused :=
    (evaluateSource_outcome "7; 1 / (8 % (3 - 3))").2.1 hclean
  · have hfails : (evaluateSource "7; 1 / (8 % (3 - 3))").isOk = false := by
      decide +kernel
    rw [hvalues] at hfails
    cases hfails
  · exact ⟨hclean, hrefused⟩

end ExprLang

import ExprLang.Analysis
import ExprLang.Proofs.Reading.Ingredients
import ExprLang.Proofs.Tree.Walks
import ExprLang.Reading.Session

/-!
# Error nodes and missing expressions

Reading leaves an error node wherever it reports that an expression is missing,
and nowhere else.  The fault is found on the way down and the node is built in on
the way up, but both keep the order of the text: the spans of the error nodes
that a walk meets are, as a list, the spans of these diagnostics.
-/

namespace ExprLang

/-! ## The error nodes of a tree -/

def Visit.errorSpan? : Visit → Option Span
  | ⟨.error, .error span⟩ => some span
  | _ => none

namespace Node

def errorSpans : Node → List Span
  | number _ => []
  | binary left _ right => left.errorSpans ++ right.errorSpans
  | parenthesized inner => inner.errorSpans
  | reference _ => []
  | error span => [span]
  | expressionStatement body => body.errorSpans
  | assignStatement _ initializer => initializer.errorSpans

theorem filterMap_errorSpan?_allVisits (node : Node) :
    node.allVisits.filterMap Visit.errorSpan? = node.errorSpans := by
  induction node with
  | number value => rfl
  | reference identifier => rfl
  | error span => rfl
  | parenthesized inner ih => exact ih
  | expressionStatement body ih => exact ih
  | assignStatement identifier initializer ih => exact ih
  | binary left operator right ihLeft ihRight =>
      change (left.allVisits ++ right.allVisits).filterMap Visit.errorSpan? = _
      simp [ihLeft, ihRight, errorSpans]

end Node

/-! ## The faults that report them -/

def Fault.missingAt? : Fault → Option Span
  | .expectedExpression found => some found.span
  | _ => none

namespace Reading

theorem filterMap_missingAt?_expect (terminal : Token) (required : TokenKind)
    (tokens : List Token) :
    (expect terminal required tokens).faults.filterMap Fault.missingAt? = [] := by
  simp only [expect]
  split <;> simp [Fault.missingAt?]

/-- What is read has an error node for each missing expression, in the order
found; a continuation adds its own after those of the left operand. -/
theorem errorSpans_invariant (terminal : Token) :
    Invariant terminal
      (fun _ reading => reading.value.errorSpans =
        reading.faults.filterMap Fault.missingAt?)
      (fun _ _ reading => reading.value.errorSpans =
        reading.faults.filterMap Fault.missingAt?)
      (fun _ left _ reading => reading.value.errorSpans =
        left.errorSpans ++ reading.faults.filterMap Fault.missingAt?) where
  ended := by simp [Node.errorSpans, Fault.missingAt?]
  semicolon := by simp [Node.errorSpans, Fault.missingAt?]
  integer := by simp [Node.errorSpans]
  parenthesized := by
    intro token rest inner _ hinner
    simp [Node.errorSpans, hinner, filterMap_missingAt?_expect]
  identifier := by simp [Node.errorSpans]
  unexpected := by simp [Node.errorSpans, Fault.missingAt?]
  continued := by
    intro least tokens first whole hfirst hwhole
    simp [hwhole, hfirst]
  finished := by simp
  operated := by
    intro least left token rest operator right whole _ _ hright hwhole
    simp [hwhole, Node.errorSpans, hright]

theorem statement_errorSpans (terminal : Token) (tokens : List Token) :
    (statement terminal tokens).value.errorSpans =
      (statement terminal tokens).faults.filterMap Fault.missingAt? := by
  have hexpression := (errorSpans_invariant terminal).expression 0
  rw [statement]
  split
  case isTrue =>
    simp [assignment, Node.errorSpans, hexpression, filterMap_missingAt?_expect]
  case isFalse => simp [expressionStatement, Node.errorSpans, hexpression]

theorem statements_errorSpans (terminal : Token) (tokens : List Token) :
    (statements terminal tokens).value.flatMap Node.errorSpans =
      (statements terminal tokens).faults.filterMap Fault.missingAt? := by
  fun_induction statements terminal tokens with
  | case1 => rfl
  | case2 => rfl
  | case3 token rest hkind first others ih =>
      have hfirst : first.value.errorSpans =
          first.faults.filterMap Fault.missingAt? :=
        statement_errorSpans terminal (token :: rest)
      have hothers : others.value.flatMap Node.errorSpans =
          others.faults.filterMap Fault.missingAt? := ih
      simp [hfirst, hothers]

end Reading

/-! ## Faults as diagnostics -/

def Diagnostic.namesMissing (diagnostic : Diagnostic) : Bool :=
  "expected expression, found <".toList.isPrefixOf diagnostic.message.toList

namespace Fault

theorem namesMissing_diagnostic (fault : Fault) :
    fault.diagnostic.namesMissing = fault.missingAt?.isSome := by
  cases fault with
  | unknownToken span =>
      change "expected expression, found <".toList.isPrefixOf
        ("unknown token <" ++ span.literal ++ ">").toList = false
      rw [String.toList_append, String.toList_append, List.append_assoc]
      rfl
  | unexpectedToken required found =>
      change "expected expression, found <".toList.isPrefixOf
        ("expected <" ++ required.name ++ ">, found <" ++ found.kind.name ++
          ">").toList = false
      simp only [String.toList_append, List.append_assoc]
      rfl
  | expectedExpression found =>
      change "expected expression, found <".toList.isPrefixOf
        ("expected expression, found <" ++ found.kind.name ++ ">").toList = true
      simp

theorem map_span_filter_namesMissing (faults : List Fault) :
    ((faults.map diagnostic).filter Diagnostic.namesMissing).map
      Diagnostic.span = faults.filterMap missingAt? := by
  induction faults with
  | nil => rfl
  | cons fault faults ih =>
      rw [List.map_cons, List.filter_cons, namesMissing_diagnostic,
        List.filterMap_cons, ← ih]
      cases fault <;> rfl

end Fault

theorem filterMap_missingAt?_placeUnknown (offset : Nat) (pieces : List Piece) :
    (Piece.placeUnknown offset pieces).filterMap Fault.missingAt? = [] := by
  induction pieces generalizing offset with
  | nil => rfl
  | cons piece pieces ih =>
      cases piece with
      | blank character => exact ih (offset + 1)
      | word kind text => exact ih (offset + text.length)
      | unknown text => exact ih (offset + text.length)

/-- The error nodes that a full walk meets have, one for one and in the same
order, the spans of the diagnostics that say that an expression is missing. -/
def ErrorNodesReported (statements : List Node)
    (diagnostics : List Diagnostic) : Prop :=
  ∃ visits, Walk.statements (fun _ => false) statements = .ok visits ∧
    visits.filterMap Visit.errorSpan? =
      (diagnostics.filter Diagnostic.namesMissing).map Diagnostic.span

theorem Reading.statements_reported (terminal : Token) (tokens : List Token)
    {before : List Fault} (hbefore : before.filterMap Fault.missingAt? = []) :
    ErrorNodesReported (statements terminal tokens).value
      ((before ++ (statements terminal tokens).faults).map Fault.diagnostic) := by
  refine ⟨_, Walk.statements_full (statements_isStatement terminal tokens), ?_⟩
  rw [Fault.map_span_filter_namesMissing, List.filterMap_append, hbefore,
    List.nil_append, ← statements_errorSpans, List.filterMap_flatMap]
  simp only [Node.filterMap_errorSpan?_allVisits]

namespace Session

/-- Whatever the tokens are, reading all statements into an empty bag leaves as
many error nodes as it reports missing expressions, at the same spans and in the
same order; and so it is for the tokens and the lexical diagnostics of a source. -/
theorem allStatements_reports_error_nodes :
    (∀ tokens : TokenSequence, ∃ statements,
      ((ofTokens tokens Bag.empty).perform .allStatements).1 =
        .nodes statements ∧
      ErrorNodesReported statements
        ((ofTokens tokens Bag.empty).perform .allStatements).2.bag.entries) ∧
    (∀ source : String, ∃ statements,
      ((ofSource source Bag.empty).perform .allStatements).1 =
        .nodes statements ∧
      ErrorNodesReported statements
        ((ofSource source Bag.empty).perform .allStatements).2.bag.entries) ∧
    ∀ source : String,
      ErrorNodesReported (analyze source).statements
        (analyze source).diagnostics := by
  have hlexical : ∀ source,
      (tokenize source).faults.filterMap Fault.missingAt? = [] :=
    fun source => filterMap_missingAt?_placeUnknown 0 _
  refine ⟨?_, ?_, ?_⟩
  · intro tokens
    have hnone : ([] : List Fault).filterMap Fault.missingAt? = [] := rfl
    exact ⟨_, rfl, Reading.statements_reported tokens.terminal tokens.body hnone⟩
  · intro source
    refine ⟨_, rfl, ?_⟩
    have hreported := Reading.statements_reported
      (tokenize source).tokens.terminal (tokenize source).tokens.body
      (hlexical source)
    rwa [List.map_append] at hreported
  · intro source
    exact Reading.statements_reported (tokenize source).tokens.terminal
      (tokenize source).tokens.body (hlexical source)

end Session

end ExprLang

import ExprLang.Proofs.Reading.Invariant
import ExprLang.Reading.Session

/-!
# Two levels of precedence

The two-level reader has one function for each level of the grammar

    sum     = product, optionally followed by an additive operator and a sum
    product = operand, optionally followed by a multiplicative operator and a
              product

and knows no numbers.  Precedence climbing reads the same trees, faults and
tokens: called with a precedence of at most three it is `sum`, with four it is
`product`, and with more it is `operand`.
-/

namespace ExprLang

namespace OperatorKind

def isAdditive : OperatorKind → Bool
  | plus | minus => true
  | multiply | divide | mod => false

def isMultiplicative : OperatorKind → Bool
  | plus | minus => false
  | multiply | divide | mod => true

theorem precedence_of_isAdditive {kind : OperatorKind}
    (h : kind.isAdditive = true) : kind.precedence = 3 := by
  cases kind <;> first | rfl | contradiction

theorem precedence_of_isMultiplicative {kind : OperatorKind}
    (h : kind.isMultiplicative = true) : kind.precedence = 4 := by
  cases kind <;> first | rfl | contradiction

@[simp] theorem isMultiplicative_eq_not (kind : OperatorKind) :
    kind.isMultiplicative = !kind.isAdditive := by
  cases kind <;> rfl

end OperatorKind

namespace Reading

/-! ## The two-level reader -/

def joined (first : Reading Node) (operator : Operator)
    (second : Reading Node) : Reading Node :=
  ⟨.binary first.value operator second.value, first.faults ++ second.faults,
    first.taken + 1 + second.taken⟩

theorem length_lt_of_drop_eq_cons {tokens rest : List Token} {token : Token}
    {count : Nat} (h : tokens.drop count = token :: rest) :
    rest.length < tokens.length := by
  have hlength := congrArg List.length h
  simp only [List.length_drop, List.length_cons] at hlength
  omega

/-- One level of the grammar: something of the level below, then an operator
of this level and something of this level again, if such an operator follows. -/
def stratum (lower : List Token → Reading Node)
    (accepts : OperatorKind → Bool) (tokens : List Token) : Reading Node :=
  let first := lower tokens
  match _ : tokens.drop first.taken with
  | [] => first
  | token :: rest =>
      match Operator.ofToken? token with
      | none => first
      | some operator =>
          if accepts operator.kind then
            first.joined operator (stratum lower accepts rest)
          else first
termination_by tokens.length
decreasing_by
  rename_i hdrop
  exact length_lt_of_drop_eq_cons hdrop

def product (terminal : Token) : List Token → Reading Node :=
  stratum (operand terminal) OperatorKind.isMultiplicative

def sum (terminal : Token) : List Token → Reading Node :=
  stratum (product terminal) OperatorKind.isAdditive

def stratified (terminal : Token) (least : Int) (tokens : List Token) :
    Reading Node :=
  if least ≤ 3 then sum terminal tokens
  else if least = 4 then product terminal tokens
  else operand terminal tokens

def Rejects (accepts : OperatorKind → Bool) (tokens : List Token) : Prop :=
  ∀ operator, leadingOperator? tokens = some operator →
    accepts operator.kind = false

section

variable {lower : List Token → Reading Node} {accepts : OperatorKind → Bool}

theorem stratum_of_rejects {tokens : List Token}
    (h : Rejects accepts (tokens.drop (lower tokens).taken)) :
    stratum lower accepts tokens = lower tokens := by
  rw [stratum]
  split
  · rfl
  · rename_i token rest hdrop
    split
    · rfl
    · rename_i operator hoperator
      have hrejects := h operator (by rw [hdrop]; exact hoperator)
      simp [hrejects]

theorem stratum_of_accepts {tokens rest : List Token} {token : Token}
    {operator : Operator}
    (hdrop : tokens.drop (lower tokens).taken = token :: rest)
    (hoperator : Operator.ofToken? token = some operator)
    (haccepts : accepts operator.kind = true) :
    stratum lower accepts tokens =
      (lower tokens).joined operator (stratum lower accepts rest) := by
  rw [stratum]
  split
  · rename_i hnil
    rw [hdrop] at hnil
    contradiction
  · rename_i other others hcons
    obtain ⟨rfl, rfl⟩ := List.cons.inj (hdrop.symm.trans hcons)
    simp [hoperator, haccepts]

theorem stratum_cases (lower : List Token → Reading Node)
    (accepts : OperatorKind → Bool) (tokens : List Token) :
    (Rejects accepts (tokens.drop (lower tokens).taken) ∧
      stratum lower accepts tokens = lower tokens) ∨
    ∃ token rest operator,
      tokens.drop (lower tokens).taken = token :: rest ∧
      Operator.ofToken? token = some operator ∧
      accepts operator.kind = true ∧
      stratum lower accepts tokens =
        (lower tokens).joined operator (stratum lower accepts rest) := by
  rcases leadingOperator?_cases (tokens.drop (lower tokens).taken) with
    hnone | ⟨token, rest, operator, hdrop, hoperator⟩
  · have hrejects : Rejects accepts (tokens.drop (lower tokens).taken) := by
      simp [Rejects, hnone]
    exact .inl ⟨hrejects, stratum_of_rejects hrejects⟩
  · cases haccepts : accepts operator.kind with
    | false =>
        have hrejects :
            Rejects accepts (tokens.drop (lower tokens).taken) := by
          simp [Rejects, hdrop, hoperator, haccepts]
        exact .inl ⟨hrejects, stratum_of_rejects hrejects⟩
    | true =>
        exact .inr ⟨token, rest, operator, hdrop, hoperator, haccepts,
          stratum_of_accepts hdrop hoperator haccepts⟩

theorem drop_joined {tokens rest : List Token} {token : Token}
    {first : Reading Node} (operator : Operator) (second : Reading Node)
    (hdrop : tokens.drop first.taken = token :: rest) :
    tokens.drop (first.joined operator second).taken =
      rest.drop second.taken := by
  rw [joined, ← List.drop_drop, ← List.drop_drop, hdrop]
  rfl

theorem stratum_ends (Ends : List Token → Prop)
    (hlower : ∀ others : List Token, Ends (others.drop (lower others).taken))
    (tokens : List Token) :
    Ends (tokens.drop (stratum lower accepts tokens).taken) ∧
      Rejects accepts (tokens.drop (stratum lower accepts tokens).taken) := by
  induction hlength : tokens.length using Nat.strongRecOn
    generalizing tokens with
  | ind length ih =>
      rcases stratum_cases lower accepts tokens with
        ⟨hrejects, heq⟩ | ⟨token, rest, operator, hdrop, -, -, heq⟩
      · rw [heq]
        exact ⟨hlower tokens, hrejects⟩
      · have hshorter := length_lt_of_drop_eq_cons hdrop
        rw [heq, drop_joined operator _ hdrop]
        exact ih rest.length (by omega) rest rfl

theorem stratum_value (Lower Upper : Node → Prop) (tokens : List Token)
    (hlower : ∀ others : List Token, others.length ≤ tokens.length →
      Lower (lower others).value)
    (hlift : ∀ node, Lower node → Upper node)
    (hjoined : ∀ left operator right, Lower left →
      accepts operator.kind = true → Upper right →
        Upper (.binary left operator right)) :
    Upper (stratum lower accepts tokens).value := by
  induction hlength : tokens.length using Nat.strongRecOn
    generalizing tokens with
  | ind length ih =>
      have hfirst := hlower tokens (Nat.le_refl _)
      rcases stratum_cases lower accepts tokens with
        ⟨-, heq⟩ | ⟨token, rest, operator, hdrop, -, haccepts, heq⟩
      · rw [heq]
        exact hlift _ hfirst
      · have hshorter := length_lt_of_drop_eq_cons hdrop
        rw [heq]
        refine hjoined _ operator _ hfirst haccepts
          (ih rest.length (by omega) rest ?_ rfl)
        intro others hothers
        exact hlower others (by omega)

end

/-! ## The loop of precedence climbing -/

def climb (terminal : Token) (least : Int) (tokens : List Token)
    (first : Reading Node) : Reading Node :=
  let whole :=
    continuation terminal least first.value (tokens.drop first.taken)
  ⟨whole.value, first.faults ++ whole.faults, first.taken + whole.taken⟩

theorem expression_eq_climb (terminal : Token) (least : Int)
    (tokens : List Token) :
    expression terminal least tokens =
      climb terminal least tokens (operand terminal tokens) := by
  rw [expression, climb]

section

variable {terminal : Token} {least : Int} {tokens : List Token}
  {first : Reading Node}

theorem climb_of_lt
    (h : ∀ operator,
      leadingOperator? (tokens.drop first.taken) = some operator →
        operator.precedence < least) :
    climb terminal least tokens first = first := by
  simp [climb, continuation_of_lt terminal first.value h]

theorem climb_of_le {token : Token} {rest : List Token} {operator : Operator}
    (hdrop : tokens.drop first.taken = token :: rest)
    (hoperator : Operator.ofToken? token = some operator)
    (hle : least ≤ operator.precedence) :
    climb terminal least tokens first =
      climb terminal least tokens
        (first.joined operator
          (expression terminal operator.precedence rest)) := by
  rw [climb, climb, drop_joined operator _ hdrop, hdrop,
    continuation_of_le terminal first.value rest hoperator hle]
  simp only [joined, List.append_assoc, Reading.mk.injEq, true_and]
  omega

end

/-! ## Both readers agree -/

theorem precedence_eq_three {operator : Operator}
    (h : operator.kind.isAdditive = true) : operator.precedence = 3 :=
  OperatorKind.precedence_of_isAdditive h

theorem precedence_eq_four {operator : Operator}
    (h : operator.kind.isMultiplicative = true) : operator.precedence = 4 :=
  OperatorKind.precedence_of_isMultiplicative h

theorem rejects_after_product (terminal : Token) (tokens : List Token) :
    Rejects OperatorKind.isMultiplicative
      (tokens.drop (product terminal tokens).taken) := by
  exact (stratum_ends (fun _ => True) (fun _ => trivial) tokens).2

theorem leadingOperator?_after_sum (terminal : Token) (tokens : List Token) :
    leadingOperator? (tokens.drop (sum terminal tokens).taken) = none := by
  have hends : Rejects OperatorKind.isMultiplicative
      (tokens.drop (sum terminal tokens).taken) ∧
        Rejects OperatorKind.isAdditive
          (tokens.drop (sum terminal tokens).taken) :=
    stratum_ends (Rejects OperatorKind.isMultiplicative)
      (rejects_after_product terminal) tokens
  rcases leadingOperator?_cases (tokens.drop (sum terminal tokens).taken) with
    hnone | ⟨token, rest, operator, hrest, hoperator⟩
  · exact hnone
  · rw [hrest] at hends
    have hmultiplicative := hends.1 operator hoperator
    have hadditive := hends.2 operator hoperator
    simp [hadditive] at hmultiplicative

theorem climb_four_of_rejects {terminal : Token} {tokens : List Token}
    {first : Reading Node}
    (h : Rejects OperatorKind.isMultiplicative (tokens.drop first.taken)) :
    climb terminal 4 tokens first = first := by
  apply climb_of_lt
  intro operator hleading
  have hadditive : operator.kind.isAdditive = true := by
    simpa using h operator hleading
  have := precedence_eq_three hadditive
  omega

theorem climb_of_none {terminal : Token} {least : Int} {tokens : List Token}
    {first : Reading Node}
    (h : leadingOperator? (tokens.drop first.taken) = none) :
    climb terminal least tokens first = first := by
  apply climb_of_lt
  simp [h]

theorem expression_eq_operand (terminal : Token) {least : Int}
    (hleast : 5 ≤ least) (tokens : List Token) :
    expression terminal least tokens = operand terminal tokens := by
  rw [expression_eq_climb, climb_of_lt]
  intro operator _
  have := operator.precedence_le_four
  omega

theorem expression_eq_product (terminal : Token) (tokens : List Token) :
    expression terminal 4 tokens = product terminal tokens := by
  induction hlength : tokens.length using Nat.strongRecOn
    generalizing tokens with
  | ind length ih =>
      rw [expression_eq_climb, product]
      rcases stratum_cases (operand terminal) OperatorKind.isMultiplicative
          tokens with
        ⟨hrejects, heq⟩ |
          ⟨token, rest, operator, hdrop, hoperator, haccepts, heq⟩
      · rw [heq, climb_four_of_rejects hrejects]
      · have hprecedence := precedence_eq_four haccepts
        have hshorter := length_lt_of_drop_eq_cons hdrop
        have hright : expression terminal operator.precedence rest =
            product terminal rest := by
          rw [hprecedence]
          exact ih rest.length (by omega) rest rfl
        rw [climb_of_le hdrop hoperator (by omega), hright, heq]
        apply climb_four_of_rejects
        rw [drop_joined operator _ hdrop]
        exact rejects_after_product terminal rest

/-- The loop reads a whole product before it meets an additive operator. -/
theorem climb_operand_eq_climb_product (terminal : Token) {least : Int}
    (hleast : least ≤ 3) (tokens : List Token) :
    climb terminal least tokens (operand terminal tokens) =
      climb terminal least tokens (product terminal tokens) := by
  rw [product]
  rcases stratum_cases (operand terminal) OperatorKind.isMultiplicative
      tokens with
    ⟨-, heq⟩ | ⟨token, rest, operator, hdrop, hoperator, haccepts, heq⟩
  · rw [heq]
  · have hprecedence := precedence_eq_four haccepts
    have hright : expression terminal operator.precedence rest =
        product terminal rest := by
      rw [hprecedence]
      exact expression_eq_product terminal rest
    rw [climb_of_le hdrop hoperator (by omega), hright, heq]
    rfl

theorem expression_eq_sum (terminal : Token) {least : Int}
    (hleast : least ≤ 3) (tokens : List Token) :
    expression terminal least tokens = sum terminal tokens := by
  induction hlength : tokens.length using Nat.strongRecOn
    generalizing least tokens with
  | ind length ih =>
      rw [expression_eq_climb, climb_operand_eq_climb_product terminal hleast,
        sum]
      rcases stratum_cases (product terminal) OperatorKind.isAdditive
          tokens with
        ⟨hrejects, heq⟩ |
          ⟨token, rest, operator, hdrop, hoperator, haccepts, heq⟩
      · rw [heq]
        apply climb_of_none
        rw [← heq]
        exact leadingOperator?_after_sum terminal tokens
      · have hprecedence := precedence_eq_three haccepts
        have hshorter := length_lt_of_drop_eq_cons hdrop
        have hright : expression terminal operator.precedence rest =
            sum terminal rest := by
          rw [hprecedence]
          exact ih rest.length (by omega) (by decide) rest rfl
        rw [climb_of_le hdrop hoperator (by omega), hright, heq]
        apply climb_of_none
        rw [drop_joined operator _ hdrop]
        exact leadingOperator?_after_sum terminal rest

theorem expression_eq_stratified (terminal : Token) (least : Int)
    (tokens : List Token) :
    expression terminal least tokens = stratified terminal least tokens := by
  rw [stratified]
  split
  case isTrue hleast => exact expression_eq_sum terminal hleast tokens
  case isFalse hleast =>
    split
    case isTrue hfour =>
      subst hfour
      exact expression_eq_product terminal tokens
    case isFalse hfour =>
      exact expression_eq_operand terminal (by omega) tokens

end Reading

/-! ## The shape of the trees -/

namespace Node

def isBinary : Node → Bool
  | binary _ _ _ => true
  | _ => false

def isAdditive : Node → Bool
  | binary _ operator _ => operator.kind.isAdditive
  | _ => false

/-- Everywhere in the tree, a sum is no left operand of a sum, no operation is
a left operand of a product, and a sum is no right operand of a product. -/
def Grouped : Node → Prop
  | expressionStatement expression => expression.Grouped
  | assignStatement _ initializer => initializer.Grouped
  | binary left operator right =>
      (operator.kind.isAdditive = true → left.isAdditive = false) ∧
      (operator.kind.isMultiplicative = true →
        left.isBinary = false ∧ right.isAdditive = false) ∧
      left.Grouped ∧ right.Grouped
  | parenthesized expression => expression.Grouped
  | number _ => True
  | reference _ => True
  | error _ => True

theorem isAdditive_of_isBinary {node : Node} (h : node.isBinary = false) :
    node.isAdditive = false := by
  cases node <;> first | rfl | contradiction

end Node

namespace Reading

open Node

theorem product_grouped {terminal : Token} (tokens : List Token)
    (hoperand : ∀ others : List Token, others.length ≤ tokens.length →
      (operand terminal others).value.Grouped ∧
        (operand terminal others).value.isBinary = false) :
    (product terminal tokens).value.Grouped ∧
      (product terminal tokens).value.isAdditive = false := by
  apply stratum_value (fun node => node.Grouped ∧ node.isBinary = false)
    (fun node => node.Grouped ∧ node.isAdditive = false) tokens hoperand
  · rintro node ⟨hgrouped, hbinary⟩
    exact ⟨hgrouped, isAdditive_of_isBinary hbinary⟩
  · rintro left operator right ⟨hleft, hbinary⟩ haccepts ⟨hright, hadditive⟩
    have hlevel : operator.kind.isAdditive = false := by
      simpa using haccepts
    refine ⟨⟨?_, fun _ => ⟨hbinary, hadditive⟩, hleft, hright⟩, hlevel⟩
    simp [hlevel]

theorem sum_grouped {terminal : Token} (tokens : List Token)
    (hoperand : ∀ others : List Token, others.length ≤ tokens.length →
      (operand terminal others).value.Grouped ∧
        (operand terminal others).value.isBinary = false) :
    (sum terminal tokens).value.Grouped := by
  apply stratum_value (fun node => node.Grouped ∧ node.isAdditive = false)
    Node.Grouped tokens
  · intro others hothers
    apply product_grouped others
    intro shorter hshorter
    exact hoperand shorter (by omega)
  · rintro node ⟨hgrouped, -⟩
    exact hgrouped
  · rintro left operator right ⟨hleft, hadditive⟩ haccepts hright
    refine ⟨fun _ => hadditive, ?_, hleft, hright⟩
    intro hmultiplicative
    simp [haccepts] at hmultiplicative

theorem operand_grouped (terminal : Token) (tokens : List Token) :
    (operand terminal tokens).value.Grouped ∧
      (operand terminal tokens).value.isBinary = false := by
  induction hlength : tokens.length using Nat.strongRecOn
    generalizing tokens with
  | ind length ih =>
      cases tokens with
      | nil => simp [operand_nil, Node.Grouped, isBinary]
      | cons token rest =>
          rw [operand]
          split
          case h_3 =>
            refine ⟨?_, rfl⟩
            change (expression terminal 0 rest).value.Grouped
            rw [expression_eq_sum terminal (by decide)]
            apply sum_grouped rest
            intro others hothers
            rw [List.length_cons] at hlength
            exact ih others.length (by omega) others rfl
          all_goals simp [Node.Grouped, isBinary]

theorem expression_grouped (terminal : Token) (least : Int)
    (tokens : List Token) : (expression terminal least tokens).value.Grouped := by
  have hoperand : ∀ others : List Token, others.length ≤ tokens.length →
      (operand terminal others).value.Grouped ∧
        (operand terminal others).value.isBinary = false :=
    fun others _ => operand_grouped terminal others
  rw [expression_eq_stratified, stratified]
  split
  · exact sum_grouped tokens hoperand
  · split
    · exact (product_grouped tokens hoperand).1
    · exact (operand_grouped terminal tokens).1

theorem assignment_grouped (terminal : Token) (tokens : List Token) :
    (assignment terminal tokens).value.Grouped :=
  expression_grouped terminal 0 (tokens.drop 2)

theorem statement_grouped (terminal : Token) (tokens : List Token) :
    (statement terminal tokens).value.Grouped := by
  rw [statement]
  split
  · exact assignment_grouped terminal tokens
  · exact expression_grouped terminal 0 tokens

theorem statements_grouped (terminal : Token) (tokens : List Token) :
    ∀ tree ∈ (statements terminal tokens).value, tree.Grouped := by
  fun_induction statements terminal tokens with
  | case1 => simp
  | case2 => simp
  | case3 token rest hkind first others ih =>
      intro tree htree
      rcases List.mem_cons.mp htree with rfl | htree
      · exact statement_grouped terminal (token :: rest)
      · exact ih tree htree

end Reading

namespace Session

def Answer.trees : Answer → List Node
  | statement (some tree) => [tree]
  | nodes trees => trees
  | _ => []

theorem grouped_answerNode (session : Session) {reading : Reading Node}
    (h : reading.value.Grouped) :
    ∀ tree ∈ (session.answerNode reading).1.trees, tree.Grouped :=
  List.forall_mem_singleton.mpr h

theorem perform_grouped (session : Session) (call : Call) :
    ∀ tree ∈ (session.perform call).1.trees, tree.Grouped := by
  cases call with
  | nextStatement =>
      rw [perform_nextStatement]
      split
      · simp [Answer.trees]
      · exact List.forall_mem_singleton.mpr
          (Reading.statement_grouped _ session.remaining)
  | iterate =>
      rw [perform_iterate]
      split
      · simp [Answer.trees]
      · exact grouped_answerNode session (Reading.statement_grouped _ _)
  | allStatements => exact Reading.statements_grouped _ session.remaining
  | statement => exact grouped_answerNode session (Reading.statement_grouped _ _)
  | assignment =>
      exact grouped_answerNode session (Reading.assignment_grouped _ _)
  | expression =>
      exact grouped_answerNode session (Reading.expression_grouped _ 0 _)
  | binary least =>
      exact grouped_answerNode session (Reading.expression_grouped _ least _)
  | operand =>
      exact grouped_answerNode session (Reading.operand_grouped _ _).1
  | peek offset =>
      rw [perform_peek]
      split <;> simp [Answer.trees]
  | operator | atEnd | consume | expect => exact List.forall_mem_nil _

/-- Precedence climbing is the two-level reader at every place of every token
sequence and from every least precedence: it answers the same tree, adds the
same diagnostics and moves the cursor as far.  All trees that a session builds
have the shape of the two-level grammar. -/
theorem perform_binary_stratified :
    (∀ (session : Session) (least : Int),
      session.perform (.binary least) =
        session.answerNode
          (Reading.stratified session.tokens.terminal least
            session.remaining)) ∧
    ∀ (session : Session) (call : Call),
      ∀ tree ∈ (session.perform call).1.trees, tree.Grouped := by
  refine ⟨?_, perform_grouped⟩
  intro session least
  rw [← Reading.expression_eq_stratified]
  rfl

end Session

end ExprLang

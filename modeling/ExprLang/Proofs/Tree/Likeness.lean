import ExprLang.Proofs.Evaluation.Meaning
import ExprLang.Proofs.Reading.Stratified
import Mathlib.Data.List.Forall2

/-!
# Trees that differ in spans only

`Node.unplaced` forgets where the tokens of a tree stand.  Trees are alike when
nothing else distinguishes them; then they are grouped alike, and they mean the
same or are refused for corresponding nodes.
-/

namespace ExprLang

/-! ## Forgetting places -/

def Span.nowhere : Span := covering 0 []

def Token.unplaced (token : Token) : Token := { token with span := Span.nowhere }

def Operator.unplaced (operator : Operator) : Operator :=
  { operator with token := operator.token.unplaced }

theorem Token.kind_eq_of_unplaced {token other : Token}
    (h : token.unplaced = other.unplaced) : token.kind = other.kind := by
  have hkind := congrArg Token.kind h
  exact hkind

theorem Token.lexeme_eq_of_unplaced {token other : Token}
    (h : token.unplaced = other.unplaced) : token.lexeme = other.lexeme := by
  have hlexeme := congrArg Token.lexeme h
  exact hlexeme

theorem Operator.kind_eq_of_unplaced {operator other : Operator}
    (h : operator.unplaced = other.unplaced) : operator.kind = other.kind := by
  have hkind := congrArg Operator.kind h
  exact hkind

theorem Operator.token_eq_of_unplaced {operator other : Operator}
    (h : operator.unplaced = other.unplaced) :
    operator.token.unplaced = other.token.unplaced := by
  have htoken := congrArg Operator.token h
  exact htoken

theorem Operator.ofToken?_of_kind {operator : Operator} {token other : Token}
    (h : ofToken? token = some operator) (hkind : other.kind = token.kind) :
    ofToken? other = some ⟨operator.kind, other⟩ := by
  simp only [ofToken?, Option.map_eq_some_iff] at h
  obtain ⟨kind, hoperator, rfl⟩ := h
  rw [ofToken?, hkind, hoperator]
  rfl

theorem Operator.ofToken?_of_unplaced {operator : Operator} {token : Token}
    (h : ofToken? operator.token = some operator)
    (htoken : token.unplaced = operator.token.unplaced) :
    ∃ other, ofToken? token = some other ∧
      operator.unplaced = other.unplaced := by
  refine ⟨_, ofToken?_of_kind h (Token.kind_eq_of_unplaced htoken), ?_⟩
  rw [unplaced, unplaced, htoken]

def Node.unplaced : Node → Node
  | .expressionStatement body => .expressionStatement body.unplaced
  | .assignStatement identifier initializer =>
      .assignStatement identifier.unplaced initializer.unplaced
  | .number value => .number value
  | .binary left operator right =>
      .binary left.unplaced operator.unplaced right.unplaced
  | .parenthesized inner => .parenthesized inner.unplaced
  | .reference identifier => .reference identifier.unplaced
  | .error _ => .error Span.nowhere

def Misplaced.unplaced : Misplaced → Misplaced
  | .statement found => .statement found.unplaced
  | .expression found => .expression found.unplaced

def Refusal.unplaced : Refusal → Refusal
  | .divisionByZero operator => .divisionByZero operator.unplaced
  | .assignment identifier => .assignment identifier.unplaced
  | .reference identifier => .reference identifier.unplaced
  | .errorNode _ => .errorNode Span.nowhere
  | .noValue => .noValue
  | .misplaced cause => .misplaced cause.unplaced

namespace Node

@[simp] theorem sort_unplaced (node : Node) : node.unplaced.sort = node.sort := by
  cases node <;> rfl

end Node

theorem Misplaced.message_unplaced (cause : Misplaced) :
    cause.unplaced.message = cause.message := by
  cases cause with
  | statement found =>
      exact congrArg ("not a statement: " ++ ·) found.sort_unplaced
  | expression found =>
      exact congrArg ("not an expression: " ++ ·) found.sort_unplaced

theorem Refusal.message_unplaced (refusal : Refusal) :
    refusal.unplaced.explanation.message = refusal.explanation.message ∧
      refusal.unplaced.explanation.hint = refusal.explanation.hint := by
  cases refusal with
  | misplaced cause => exact ⟨cause.message_unplaced, rfl⟩
  | divisionByZero operator => exact ⟨rfl, rfl⟩
  | assignment identifier => exact ⟨rfl, rfl⟩
  | reference identifier => exact ⟨rfl, rfl⟩
  | errorNode span => exact ⟨rfl, rfl⟩
  | noValue => exact ⟨rfl, rfl⟩

/-! ## Trees alike -/

namespace Node

inductive Alike : Node → Node → Prop
  | number (value : Int) : Alike (.number value) (.number value)
  | reference {identifier other : Token}
      (hidentifier : identifier.unplaced = other.unplaced) :
      Alike (.reference identifier) (.reference other)
  | error (span other : Span) : Alike (.error span) (.error other)
  | parenthesized {inner other : Node} (hinner : Alike inner other) :
      Alike (.parenthesized inner) (.parenthesized other)
  | binary {left right left' right' : Node} {operator operator' : Operator}
      (hleft : Alike left left')
      (hoperator : operator.unplaced = operator'.unplaced)
      (hright : Alike right right') :
      Alike (.binary left operator right) (.binary left' operator' right')

inductive StatementAlike : Node → Node → Prop
  | expression {body other : Node} (hbody : Alike body other) :
      StatementAlike (.expressionStatement body) (.expressionStatement other)
  | assignment {identifier other : Token} {initializer initializer' : Node}
      (hidentifier : identifier.unplaced = other.unplaced)
      (hinitializer : Alike initializer initializer') :
      StatementAlike (.assignStatement identifier initializer)
        (.assignStatement other initializer')

namespace Alike

variable {node other : Node}

theorem unplaced (h : node.Alike other) : node.unplaced = other.unplaced := by
  induction h with
  | number value => rfl
  | reference hidentifier => rw [Node.unplaced, Node.unplaced, hidentifier]
  | error span other => rfl
  | parenthesized _ ih => rw [Node.unplaced, Node.unplaced, ih]
  | binary _ hoperator _ ihLeft ihRight =>
      rw [Node.unplaced, Node.unplaced, ihLeft, hoperator, ihRight]

theorem isBinary (h : node.Alike other) : node.isBinary = other.isBinary := by
  cases h <;> rfl

theorem isAdditive (h : node.Alike other) :
    node.isAdditive = other.isAdditive := by
  cases h with
  | binary _ hoperator _ =>
      rw [Node.isAdditive, Node.isAdditive, Operator.kind_eq_of_unplaced hoperator]
  | _ => rfl

theorem grouped (h : node.Alike other) (hnode : node.Grouped) :
    other.Grouped := by
  induction h with
  | number value => trivial
  | reference _ => trivial
  | error span other => trivial
  | parenthesized _ ih => exact ih hnode
  | binary hleft hoperator hright ihLeft ihRight =>
      obtain ⟨hsum, hproduct, hleftGrouped, hrightGrouped⟩ := hnode
      rw [Operator.kind_eq_of_unplaced hoperator] at hsum hproduct
      rw [hleft.isAdditive] at hsum
      rw [hleft.isBinary, hright.isAdditive] at hproduct
      exact ⟨hsum, hproduct, ihLeft hleftGrouped, ihRight hrightGrouped⟩

theorem length_preorder (h : node.Alike other) (depth : Nat) :
    (node.preorder depth).length = (other.preorder depth).length := by
  induction h generalizing depth with
  | number value => rfl
  | reference _ => rfl
  | error span other => rfl
  | parenthesized _ ih => simp [preorder, ih]
  | binary _ _ _ ihLeft ihRight => simp [preorder, ihLeft, ihRight]

end Alike

theorem StatementAlike.unplaced {node other : Node}
    (h : node.StatementAlike other) : node.unplaced = other.unplaced := by
  cases h with
  | expression hbody => rw [Node.unplaced, Node.unplaced, hbody.unplaced]
  | assignment hidentifier hinitializer =>
      rw [Node.unplaced, Node.unplaced, hidentifier, hinitializer.unplaced]

theorem StatementAlike.grouped {node other : Node}
    (h : node.StatementAlike other) (hnode : node.Grouped) : other.Grouped := by
  cases h with
  | expression hbody => exact hbody.grouped hnode
  | assignment _ hinitializer => exact hinitializer.grouped hnode

end Node

/-! ## Meanings alike -/

def Refusal.Blames : Refusal → Node → Prop
  | .divisionByZero operator, .binary _ blamed _ => blamed.token = operator
  | .assignment identifier, .assignStatement blamed _ => blamed = identifier
  | .reference identifier, .reference blamed => blamed = identifier
  | .errorNode span, .error blamed => blamed = span
  | _, _ => False

/-- Equal values, or refusals that differ in spans only and arise from nodes at
the same place of the two lists. -/
inductive SameOutcome {α : Type} (nodes others : List (Nat × Node)) :
    Except Refusal α → Except Refusal α → Prop
  | value (result : α) : SameOutcome nodes others (.ok result) (.ok result)
  | refusal {refusal other : Refusal}
      (hunplaced : refusal.unplaced = other.unplaced)
      (hblamed : ∃ pair ∈ nodes.zip others,
        refusal.Blames pair.1.2 ∧ other.Blames pair.2.2) :
      SameOutcome nodes others (.error refusal) (.error other)

namespace SameOutcome

variable {α : Type} {nodes others : List (Nat × Node)}
  {outcome outcome' : Except Refusal α}

theorem mono {nodes' others' : List (Nat × Node)}
    (h : SameOutcome nodes others outcome outcome')
    (hsubset : nodes.zip others ⊆ nodes'.zip others') :
    SameOutcome nodes' others' outcome outcome' := by
  cases h with
  | value result => exact .value result
  | refusal hunplaced hblamed =>
      obtain ⟨pair, hpair, hblames⟩ := hblamed
      exact .refusal hunplaced ⟨pair, hsubset hpair, hblames⟩

theorem explanation {refusal other : Refusal}
    (h : SameOutcome nodes others (.error refusal : Except Refusal α)
      (.error other)) :
    other.explanation.message = refusal.explanation.message ∧
      other.explanation.hint = refusal.explanation.hint := by
  cases h with
  | refusal hunplaced _ =>
      obtain ⟨hmessage, hhint⟩ := refusal.message_unplaced
      rw [hunplaced] at hmessage hhint
      exact ⟨other.message_unplaced.1.symm.trans hmessage,
        other.message_unplaced.2.symm.trans hhint⟩

theorem zip_append_subset {first first' : List (Nat × Node)}
    (h : first.length = first'.length) (second second' : List (Nat × Node)) :
    first.zip first' ⊆ (first ++ second).zip (first' ++ second') ∧
      second.zip second' ⊆ (first ++ second).zip (first' ++ second') := by
  rw [List.zip_append h]
  exact ⟨List.subset_append_left _ _, List.subset_append_right _ _⟩

end SameOutcome

namespace Node

theorem Alike.meaning {node other : Node} (h : node.Alike other) (depth : Nat) :
    SameOutcome (node.preorder depth) (other.preorder depth) node.meaning
      other.meaning := by
  induction h generalizing depth with
  | number value => exact .value value
  | @reference identifier other hidentifier =>
      exact .refusal (congrArg Refusal.reference hidentifier)
        ⟨_, List.mem_cons_self, rfl, rfl⟩
  | error span other =>
      exact .refusal rfl ⟨_, List.mem_cons_self, rfl, rfl⟩
  | parenthesized _ ih =>
      exact (ih (depth + 1)).mono (List.subset_cons_self _ _)
  | @binary left right left' right' operator operator' hleft hoperator _
      ihLeft ihRight =>
      obtain ⟨hleftSubset, hrightSubset⟩ := SameOutcome.zip_append_subset
        (hleft.length_preorder (depth + 1)) (right.preorder (depth + 1))
        (right'.preorder (depth + 1))
      have hbelow :
          (left.preorder (depth + 1) ++ right.preorder (depth + 1)).zip
              (left'.preorder (depth + 1) ++ right'.preorder (depth + 1)) ⊆
            ((Node.binary left operator right).preorder depth).zip
              ((Node.binary left' operator' right').preorder depth) :=
        List.subset_cons_self _ _
      have hfirst := (ihLeft (depth + 1)).mono
        fun _ hpair => hbelow (hleftSubset hpair)
      have hsecond := (ihRight (depth + 1)).mono
        fun _ hpair => hbelow (hrightSubset hpair)
      rw [Node.meaning, Node.meaning, ← Operator.kind_eq_of_unplaced hoperator]
      generalize left.meaning = first, left'.meaning = first' at hfirst ⊢
      generalize right.meaning = second, right'.meaning = second' at hsecond ⊢
      cases hfirst with
      | refusal hunplaced hblamed => exact .refusal hunplaced hblamed
      | value number =>
          cases hsecond with
          | refusal hunplaced hblamed => exact .refusal hunplaced hblamed
          | value divisor =>
              simp only [bind, Except.bind]
              cases operator.kind.apply? number divisor with
              | some result => exact .value result
              | none =>
                  have htoken := Operator.token_eq_of_unplaced hoperator
                  exact .refusal (congrArg Refusal.divisionByZero htoken)
                    ⟨_, List.mem_cons_self, rfl, rfl⟩

theorem StatementAlike.meaning {node other : Node}
    (h : node.StatementAlike other) (depth : Nat) :
    SameOutcome (node.preorder depth) (other.preorder depth)
      node.statementMeaning other.statementMeaning := by
  cases h with
  | expression hbody =>
      exact (hbody.meaning (depth + 1)).mono (List.subset_cons_self _ _)
  | assignment hidentifier hinitializer =>
      exact .refusal (congrArg Refusal.assignment hidentifier)
        ⟨_, List.mem_cons_self, rfl, rfl⟩

theorem StatementAlike.length_preorder {node other : Node}
    (h : node.StatementAlike other) (depth : Nat) :
    (node.preorder depth).length = (other.preorder depth).length := by
  cases h with
  | expression hbody => simp [preorder, hbody.length_preorder]
  | assignment _ hinitializer => simp [preorder, hinitializer.length_preorder]

end Node

namespace Node

theorem map_unplaced_of_alike {nodes others : List Node}
    (h : List.Forall₂ StatementAlike nodes others) :
    others.map Node.unplaced = nodes.map Node.unplaced := by
  induction h with
  | nil => rfl
  | cons hfirst _ ih => rw [List.map_cons, List.map_cons, hfirst.unplaced, ih]

theorem grouped_of_alike {nodes others : List Node}
    (h : List.Forall₂ StatementAlike nodes others)
    (hgrouped : ∀ node ∈ nodes, node.Grouped) :
    ∀ other ∈ others, other.Grouped := by
  induction h with
  | nil => simp
  | cons hfirst _ ih =>
      obtain ⟨hnode, hnodes⟩ := List.forall_mem_cons.mp hgrouped
      exact List.forall_mem_cons.mpr ⟨hfirst.grouped hnode, ih hnodes⟩

end Node

/-- Statements alike evaluate to the same values or are refused for
corresponding nodes. -/
theorem evaluate_alike {nodes others : List Node}
    (h : List.Forall₂ Node.StatementAlike nodes others) :
    SameOutcome (nodes.flatMap (Node.preorder 0))
      (others.flatMap (Node.preorder 0)) (evaluate nodes) (evaluate others) := by
  rw [evaluate_eq, evaluate_eq]
  induction h with
  | nil => exact .value []
  | @cons node other nodes others hfirst hothers ih =>
      obtain ⟨hfirstSubset, hothersSubset⟩ := SameOutcome.zip_append_subset
        (hfirst.length_preorder 0) (nodes.flatMap (Node.preorder 0))
        (others.flatMap (Node.preorder 0))
      have hmeaning := (hfirst.meaning 0).mono hfirstSubset
      have hrest := ih.mono hothersSubset
      rw [List.mapM_cons, List.mapM_cons, List.flatMap_cons, List.flatMap_cons]
      generalize node.statementMeaning = first,
        other.statementMeaning = first' at hmeaning ⊢
      generalize nodes.mapM Node.statementMeaning = rest,
        others.mapM Node.statementMeaning = rest' at hrest ⊢
      cases hmeaning with
      | refusal hunplaced hblamed => exact .refusal hunplaced hblamed
      | value number =>
          cases hrest with
          | refusal hunplaced hblamed => exact .refusal hunplaced hblamed
          | value numbers => exact .value (number :: numbers)

theorem evaluate_of_alike {nodes others : List Node} {values : List Int}
    (h : List.Forall₂ Node.StatementAlike nodes others)
    (hvalues : evaluate nodes = .ok values) : evaluate others = .ok values := by
  have houtcome := evaluate_alike h
  rw [hvalues] at houtcome
  generalize evaluate others = result at houtcome ⊢
  cases houtcome
  rfl

end ExprLang

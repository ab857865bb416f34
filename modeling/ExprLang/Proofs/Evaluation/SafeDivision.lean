import ExprLang.Proofs.Evaluation.Source
import ExprLang.Proofs.Layout.HandBuilt

/-!
# Divisors that cannot be zero

A tree without names has a value when every divisor in it is a number other
than zero.  Regrouping keeps a divisor what it is as long as the division ends
its chain, for what follows a division would become part of the divisor.
-/

namespace ExprLang

namespace Node

/-- No name occurs, and every divisor is a number other than zero. -/
def Safe : Node → Prop
  | number _ => True
  | binary left operator right =>
      left.Safe ∧ right.Safe ∧
        (operator.kind.divides = true →
          ∃ divisor, right = .number divisor ∧ divisor ≠ 0)
  | parenthesized inner => inner.Safe
  | reference _ => False
  | error _ => False
  | expressionStatement _ => False
  | assignStatement _ _ => False

def StatementSafe : Node → Prop
  | expressionStatement body => body.Safe
  | _ => False

theorem Safe.exists_value {node : Node} (h : node.Safe) :
    ∃ number, node.course.outcome = .ok number := by
  induction node with
  | number value => exact ⟨value, rfl⟩
  | parenthesized inner ih => exact ih h
  | binary left operator right ihLeft ihRight =>
      obtain ⟨hleft, hright, hdivisor⟩ := h
      obtain ⟨first, hfirst⟩ := ihLeft hleft
      obtain ⟨second, hsecond⟩ := ihRight hright
      have hnonzero : ¬ (operator.kind.divides = true ∧ second = 0) := by
        rintro ⟨hdivides, rfl⟩
        obtain ⟨divisor, rfl, hne⟩ := hdivisor hdivides
        exact hne (Except.ok.inj hsecond)
      rw [outcome_binary, hfirst, hsecond]
      simp only [bind, Except.bind, Operator.course, if_neg hnonzero]
      exact ⟨_, rfl⟩
  | reference identifier => exact h.elim
  | error span => exact h.elim
  | expressionStatement body _ => exact h.elim
  | assignStatement identifier initializer _ => exact h.elim

theorem StatementSafe.exists_value {node : Node} (h : node.StatementSafe) :
    ∃ number, node.statementCourse.outcome = .ok number := by
  cases node with
  | expressionStatement body => exact Safe.exists_value h
  | _ => exact h.elim

theorem Safe.beginsNamed {node : Node} (h : node.Safe) :
    node.beginsNamed = false := by
  induction node with
  | binary left operator right ihLeft _ => exact ihLeft h.1
  | reference identifier => exact h.elim
  | _ => rfl

/-- Before a sum, an operator that takes only the first product of it is no
division, since a divisor is no sum. -/
theorem Safe.prepend {operand tree : Node} (hoperand : operand.Safe)
    (htree : tree.Safe) {operator : Operator}
    (hdivisor : operator.kind.divides = true →
      ∃ divisor, tree = .number divisor ∧ divisor ≠ 0) :
    (operand.prepend operator tree).Safe := by
  cases tree with
  | binary left other right =>
      obtain ⟨hleft, hright, hother⟩ := htree
      have hundivided : operator.kind.divides ≠ true := by
        intro hdivides
        obtain ⟨divisor, hnumber, -⟩ := hdivisor hdivides
        cases hnumber
      rw [Node.prepend]
      split
      · exact ⟨⟨hoperand, hleft, fun h => absurd h hundivided⟩, hright, hother⟩
      · exact ⟨hoperand, ⟨hleft, hright, hother⟩, hdivisor⟩
  | _ => exact ⟨hoperand, htree, hdivisor⟩

theorem Safe.respelled {node : Node} (h : node.Safe) : node.respelled.Safe := by
  induction node with
  | binary left operator right ihLeft ihRight =>
      obtain ⟨hleft, hright, hdivisor⟩ := h
      refine ⟨ihLeft hleft, ihRight hright, ?_⟩
      intro hdivides
      obtain ⟨divisor, rfl, hne⟩ := hdivisor hdivides
      exact ⟨divisor, rfl, hne⟩
  | parenthesized inner ih => exact ih h
  | number value => trivial
  | _ => exact h.elim

end Node

theorem evaluate_of_safe {nodes : List Node}
    (h : ∀ node ∈ nodes, node.StatementSafe) :
    ∃ values, evaluate nodes = .ok values ∧ values.length = nodes.length := by
  have hvalued : ∃ values, Valued nodes values := by
    induction nodes with
    | nil => exact ⟨[], .nil⟩
    | cons node nodes ih =>
        obtain ⟨hnode, hnodes⟩ := List.forall_mem_cons.mp h
        obtain ⟨number, hnumber⟩ := hnode.exists_value
        obtain ⟨values, hvalues⟩ := ih hnodes
        exact ⟨number :: values, .cons hnumber hvalues⟩
  obtain ⟨values, hvalues⟩ := hvalued
  exact ⟨values, evaluate_of_valued hvalues, hvalues.length_eq.symm⟩

/-! ## Chains -/

namespace Chain

/-- No name occurs, and a division has a number other than zero as divisor and
ends the chain. -/
def Safe : Chain → Prop
  | single operand => operand.Safe
  | more operand operator rest =>
      operand.Safe ∧ rest.Safe ∧
        (operator.kind.divides = true →
          ∃ divisor, rest = .single (.number divisor) ∧ divisor ≠ 0)

def Undivided : Chain → Prop
  | single _ => True
  | more _ operator rest => operator.kind.divides = false ∧ rest.Undivided

theorem Undivided.join {before after : Chain} (hbefore : before.Undivided)
    {operator : Operator} (hoperator : operator.kind.divides = false)
    (hafter : after.Undivided) : (before.join operator after).Undivided := by
  induction before with
  | single operand => exact ⟨hoperator, hafter⟩
  | more operand first rest ih => exact ⟨hbefore.1, ih hbefore.2⟩

theorem Safe.join {before after : Chain} (hbefore : before.Safe)
    (hundivided : before.Undivided) {operator : Operator} (hafter : after.Safe)
    (hdivisor : operator.kind.divides = true →
      ∃ divisor, after = .single (.number divisor) ∧ divisor ≠ 0) :
    (before.join operator after).Safe := by
  induction before with
  | single operand => exact ⟨hbefore, hafter, hdivisor⟩
  | more operand first rest ih =>
      obtain ⟨hfirst, hrest⟩ := hundivided
      refine ⟨hbefore.1, ih hbefore.2.1 hrest, ?_⟩
      simp [hfirst]

theorem Safe.tree {chain : Chain} (h : chain.Safe) : chain.tree.Safe := by
  induction chain with
  | single operand => exact h
  | more operand operator rest ih =>
      obtain ⟨hoperand, hrest, hdivisor⟩ := h
      refine hoperand.prepend (ih hrest) ?_
      intro hdivides
      obtain ⟨divisor, rfl, hne⟩ := hdivisor hdivides
      exact ⟨divisor, rfl, hne⟩

end Chain

end ExprLang

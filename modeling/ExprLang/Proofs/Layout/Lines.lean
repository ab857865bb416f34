import ExprLang.Tree.Layout

/-!
# Lines of canonical source

Every statement begins with no parts, so its parts, and the line that they make
up, depend on nothing that was written before.  The parts that are left at the
end are those of the last statement.
-/

namespace ExprLang

namespace Node

def parts : Node → List String
  | number value => [toString value]
  | binary left operator right =>
      left.parts ++ (" " ++ operator.symbol ++ " ") :: right.parts
  | parenthesized inner => "(" :: (inner.parts ++ [")"])
  | reference identifier => [identifier.lexeme]
  | error span => [span.literal]
  | expressionStatement _ => []
  | assignStatement _ _ => []

def statementParts : Node → List String
  | expressionStatement body => body.parts
  | assignStatement identifier initializer =>
      (identifier.lexeme ++ " := ") :: (initializer.parts ++ [";"])
  | _ => []

def sourceLine (node : Node) : String := String.join node.statementParts

end Node

namespace Layout

theorem expression_eq {node : Node} (h : node.IsExpression) (layout : Layout) :
    layout.expression node =
      if node.numbersWithinLimit then
        .ok { layout with parts := layout.parts ++ node.parts }
      else .error .tooLong := by
  induction node generalizing layout with
  | number value =>
      rw [expression, Node.numbersWithinLimit]
      cases hvalue : Number.isWithinLimit value with
      | true => rw [numberText_of_within hvalue]; rfl
      | false => rw [numberText_of_long hvalue]; rfl
  | reference identifier => rfl
  | error span => rfl
  | parenthesized inner ih =>
      rw [expression, ih h, Node.numbersWithinLimit]
      cases inner.numbersWithinLimit with
      | true => simp [write, Node.parts, bind, Except.bind, pure, Except.pure]
      | false => rfl
  | binary left operator right ihLeft ihRight =>
      rw [expression, ihLeft h.1, Node.numbersWithinLimit]
      cases left.numbersWithinLimit with
      | true =>
          refine (ihRight h.2 _).trans ?_
          simp [write, Node.parts]
      | false => rfl
  | expressionStatement inner _ => exact h.elim
  | assignStatement identifier initializer _ => exact h.elim

theorem statement_eq {node : Node} (h : node.IsStatement) (layout : Layout) :
    layout.statement node =
      if node.numbersWithinLimit then
        .ok ⟨layout.lines ++ [node.sourceLine], node.statementParts⟩
      else .error .tooLong := by
  cases node with
  | expressionStatement body =>
      have hbody : body.IsExpression := h
      rw [statement, Node.numbersWithinLimit]
      simp only [expression_eq hbody]
      cases body.numbersWithinLimit <;> rfl
  | assignStatement identifier initializer =>
      have hinitializer : initializer.IsExpression := h
      rw [statement, Node.numbersWithinLimit]
      simp only [expression_eq hinitializer]
      cases initializer.numbersWithinLimit <;> rfl
  | _ => exact h.elim

theorem statements_eq {nodes : List Node} (h : ∀ node ∈ nodes, node.IsStatement)
    (layout : Layout) :
    layout.statements nodes =
      if nodes.all Node.numbersWithinLimit then
        .ok ⟨layout.lines ++ nodes.map Node.sourceLine,
          nodes.foldl (fun _ node => node.statementParts) layout.parts⟩
      else .error .tooLong := by
  induction nodes generalizing layout with
  | nil => simp [statements, pure, Except.pure]
  | cons node nodes ih =>
      obtain ⟨hnode, hnodes⟩ := List.forall_mem_cons.mp h
      rw [statements, statement_eq hnode, List.all_cons]
      cases node.numbersWithinLimit with
      | true =>
          refine (ih hnodes _).trans ?_
          simp
      | false => rfl

end Layout

theorem sourceText_eq_lines {nodes : List Node}
    (h : ∀ node ∈ nodes, node.IsStatement) :
    sourceText nodes =
      if nodes.all Node.numbersWithinLimit then
        .ok (Text.terminated (nodes.map Node.sourceLine))
      else .error .tooLong := by
  rw [sourceText, Layout.statements_eq h]
  cases nodes.all Node.numbersWithinLimit <;> rfl

end ExprLang

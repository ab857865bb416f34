import ExprLang.Proofs.Evaluation.Course

/-!
# The meaning of trees

`Node.meaning` gives the value of an expression, or its refusal, and nothing of
the numbers on the way, so it is the outcome of the course.  `evaluate_eq` says
that evaluating statements is to take their meanings one after another.
-/

namespace ExprLang

namespace Node

def meaning : Node → Except Refusal Int
  | number value => .ok value
  | binary left operator right => do
      let first ← left.meaning
      let second ← right.meaning
      match operator.kind.apply? first second with
      | some result => .ok result
      | none => .error (.divisionByZero operator.token)
  | parenthesized inner => inner.meaning
  | reference identifier => .error (.reference identifier)
  | error span => .error (.errorNode span)
  | expressionStatement inner =>
      .error (.misplaced (.expression (.expressionStatement inner)))
  | assignStatement identifier initializer =>
      .error (.misplaced (.expression (.assignStatement identifier initializer)))

def statementMeaning : Node → Except Refusal Int
  | expressionStatement body => body.meaning
  | assignStatement identifier _ => .error (.assignment identifier)
  | other => .error (.misplaced (.statement other))

end Node

/-! ## Meanings are outcomes -/

theorem Operator.outcome_course (operator : Operator) (left right : Int) :
    (operator.course left right).outcome =
      match operator.kind.apply? left right with
      | some result => .ok result
      | none => .error (.divisionByZero operator.token) := by
  rw [Operator.course, OperatorKind.apply?_eq]
  split <;> rfl

namespace Node

theorem outcome_course (node : Node) : node.course.outcome = node.meaning := by
  induction node with
  | binary left operator right ihLeft ihRight =>
      simp only [course, meaning, Course.outcome_andThen, ihLeft, ihRight,
        Operator.outcome_course]
  | parenthesized inner ih => exact ih
  | _ => rfl

theorem outcome_statementCourse (node : Node) :
    node.statementCourse.outcome = node.statementMeaning := by
  cases node with
  | expressionStatement body => exact body.outcome_course
  | _ => rfl

end Node

theorem mapM_of_valued {nodes : List Node} {numbers : List Int}
    (h : Valued nodes numbers) :
    nodes.mapM Node.statementMeaning = .ok numbers := by
  induction h with
  | nil => rfl
  | cons hnode _ ih =>
      rw [List.mapM_cons, ← Node.outcome_statementCourse, hnode, ih]
      rfl

theorem mapM_of_refused {before after : List Node} {node : Node}
    {numbers : List Int} {refusal : Refusal} (hbefore : Valued before numbers)
    (hnode : node.statementCourse.outcome = .error refusal) :
    (before ++ node :: after).mapM Node.statementMeaning = .error refusal := by
  rw [List.mapM_append, mapM_of_valued hbefore, List.mapM_cons,
    ← Node.outcome_statementCourse, hnode]
  rfl

theorem evaluate_eq (nodes : List Node) :
    evaluate nodes = nodes.mapM Node.statementMeaning := by
  obtain ⟨numbers, hnodes⟩ |
    ⟨before, node, after, numbers, refusal, rfl, hbefore, hnode⟩ :=
      valued_or_refused nodes
  · rw [evaluate_of_valued hnodes, mapM_of_valued hnodes]
  · rw [evaluate_of_refused hbefore hnode, mapM_of_refused hbefore hnode]

end ExprLang

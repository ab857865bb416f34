import ExprLang.Evaluation
import Mathlib.Data.List.Forall2

/-!
# The course of an evaluation

The evaluator hands results on through its last value.  The course of a tree
knows no state: it lists the numbers that are computed, the left operand before
the right one and both before their result, up to the value of the tree or to
the first refusal.  `statements_follow_courses` says that the evaluator does
what the courses of its statements say, whatever it held before.
-/

namespace ExprLang

/-! ## Courses -/

/-- The numbers computed in order, and the value, which is the last of them, or
the refusal that came after them. -/
structure Course where
  computed : List Int
  outcome : Except Refusal Int
  ends : ∀ number, outcome = .ok number → computed.getLast? = some number

namespace Course

def value (number : Int) : Course := ⟨[number], .ok number, by simp⟩

def refused (refusal : Refusal) : Course := ⟨[], .error refusal, by simp⟩

def andThen (first : Course) (next : Int → Course) : Course :=
  match first.outcome with
  | .error refusal => ⟨first.computed, .error refusal, by simp⟩
  | .ok number =>
      ⟨first.computed ++ (next number).computed, (next number).outcome, by
        intro result hresult
        rw [List.getLast?_append, (next number).ends result hresult]
        rfl⟩

theorem outcome_andThen (first : Course) (next : Int → Course) :
    (first.andThen next).outcome =
      first.outcome >>= fun number => (next number).outcome := by
  cases houtcome : first.outcome <;> simp [andThen, houtcome, bind, Except.bind]

end Course

namespace OperatorKind

def divides : OperatorKind → Bool
  | plus | minus | multiply => false
  | divide | mod => true

def result (kind : OperatorKind) (left right : Int) : Int :=
  match kind with
  | plus => left + right
  | minus => left - right
  | multiply => left * right
  | divide => left.tdiv right
  | mod => left.tmod right

end OperatorKind

def Operator.course (operator : Operator) (left right : Int) : Course :=
  if operator.kind.divides = true ∧ right = 0 then
    .refused (.divisionByZero operator.token)
  else .value (operator.kind.result left right)

namespace Node

def course : Node → Course
  | number value => .value value
  | binary left operator right =>
      left.course.andThen fun first => right.course.andThen fun second =>
        operator.course first second
  | parenthesized inner => inner.course
  | reference identifier => .refused (.reference identifier)
  | error span => .refused (.errorNode span)
  | expressionStatement body =>
      .refused (.misplaced (.expression (.expressionStatement body)))
  | assignStatement identifier initializer =>
      .refused
        (.misplaced (.expression (.assignStatement identifier initializer)))

def statementCourse : Node → Course
  | expressionStatement body => body.course
  | assignStatement identifier _ => .refused (.assignment identifier)
  | other => .refused (.misplaced (.statement other))

end Node

/-! ## Truncated division -/

theorem truncatedQuotient_eq_tdiv (dividend divisor : Int) :
    truncatedQuotient dividend divisor = dividend.tdiv divisor := by
  have hofNat : ∀ number : Nat, ¬ Int.ofNat number < 0 :=
    fun number => Int.not_lt.mpr (Int.natCast_nonneg number)
  have hnegSucc : ∀ number : Nat, Int.negSucc number < 0 :=
    Int.negSucc_lt_zero
  cases dividend <;> cases divisor <;>
    simp only [truncatedQuotient, hofNat, hnegSucc, iff_self, iff_false,
      iff_true, not_true, if_true, if_false] <;> rfl

theorem truncatedRemainder_eq_tmod (dividend divisor : Int) :
    truncatedRemainder dividend divisor = dividend.tmod divisor := by
  rw [truncatedRemainder, truncatedQuotient_eq_tdiv, Int.tmod_def]

theorem OperatorKind.apply?_eq (kind : OperatorKind) (left right : Int) :
    kind.apply? left right =
      if kind.divides = true ∧ right = 0 then none
      else some (kind.result left right) := by
  cases kind <;>
    simp [divides, result, OperatorKind.apply?, truncatedQuotient_eq_tdiv,
      truncatedRemainder_eq_tmod]

/-! ## The evaluator follows the course -/

namespace Evaluator

theorem bind_of_ok {α β : Type} {action : Action α} {next : α → Action β}
    {state reached : Evaluator} {result : α}
    (h : action state = .ok result reached) :
    (action >>= next) state = next result reached := by
  simp only [bind, EStateM.bind, h]

theorem bind_of_error {α β : Type} {action : Action α} {next : α → Action β}
    {state reached : Evaluator} {refusal : Refusal}
    (h : action state = .error refusal reached) :
    (action >>= next) state = .error refusal reached := by
  simp only [bind, EStateM.bind, h]

theorem take_of_some (number : Int) (values : List Int) :
    take ⟨some number, values⟩ = .ok number ⟨some number, values⟩ := rfl

def operate (operator : Operator) (first second : Int) : Action Unit :=
  match operator.kind.apply? first second with
  | some result => remember result
  | none => throw (.divisionByZero operator.token)

theorem expression_binary (left right : Node) (operator : Operator) :
    expression (.binary left operator right) =
      expression left >>= fun _ => take >>= fun first =>
        expression right >>= fun _ => take >>= fun second =>
          operate operator first second := rfl

def finish (course : Course) (state : Evaluator) :
    EStateM.Result Refusal Evaluator Unit :=
  let reached : Evaluator :=
    ⟨course.computed.getLast?.or state.lastValue, state.values⟩
  match course.outcome with
  | .ok _ => .ok () reached
  | .error refusal => .error refusal reached

theorem finish_of_ok {course : Course} {number : Int}
    (h : course.outcome = .ok number) (state : Evaluator) :
    finish course state = .ok () ⟨some number, state.values⟩ := by
  rw [finish, h, course.ends number h]
  rfl

theorem finish_of_error {course : Course} {refusal : Refusal}
    (h : course.outcome = .error refusal) (state : Evaluator) :
    finish course state = .error refusal
      ⟨course.computed.getLast?.or state.lastValue, state.values⟩ := by
  rw [finish, h]

theorem finish_andThen {action : Action Unit} {next : Int → Action Unit}
    {first : Course} {second : Int → Course}
    (hfirst : ∀ state, action state = finish first state)
    (hnext : ∀ number state, next number state = finish (second number) state)
    (state : Evaluator) :
    (action >>= fun _ => take >>= next) state =
      finish (first.andThen second) state := by
  cases houtcome : first.outcome with
  | error refusal =>
      have hrun := (hfirst state).trans (finish_of_error houtcome state)
      rw [bind_of_error hrun]
      simp [finish, Course.andThen, houtcome]
  | ok number =>
      have hrun := (hfirst state).trans (finish_of_ok houtcome state)
      rw [bind_of_ok hrun, bind_of_ok (take_of_some number state.values), hnext]
      have hlast := first.ends number houtcome
      simp [finish, Course.andThen, houtcome, List.getLast?_append, hlast]

theorem operate_follows (operator : Operator) (first second : Int)
    (state : Evaluator) :
    operate operator first second state =
      finish (operator.course first second) state := by
  rw [operate, OperatorKind.apply?_eq, Operator.course]
  split <;> rfl

theorem expression_follows (node : Node) (state : Evaluator) :
    expression node state = finish node.course state := by
  induction node generalizing state with
  | number value => rfl
  | binary left operator right ihLeft ihRight =>
      rw [expression_binary, Node.course]
      refine finish_andThen ihLeft (fun first state => ?_) state
      exact finish_andThen ihRight (operate_follows operator first) state
  | parenthesized inner ih => exact ih state
  | reference identifier => rfl
  | error span => rfl
  | expressionStatement body _ => rfl
  | assignStatement identifier initializer _ => rfl

end Evaluator

/-! ## Statements -/

def Valued (nodes : List Node) (numbers : List Int) : Prop :=
  List.Forall₂ (fun node number => node.statementCourse.outcome = .ok number)
    nodes numbers

def computedBy (nodes : List Node) : List Int :=
  nodes.flatMap fun node => node.statementCourse.computed

theorem computedBy_append_singleton (nodes : List Node) (node : Node) :
    computedBy (nodes ++ [node]) =
      computedBy nodes ++ node.statementCourse.computed := by
  simp [computedBy]

theorem valued_or_refused (nodes : List Node) :
    (∃ numbers, Valued nodes numbers) ∨
      ∃ before node after numbers refusal, nodes = before ++ node :: after ∧
        Valued before numbers ∧ node.statementCourse.outcome = .error refusal := by
  induction nodes with
  | nil => exact .inl ⟨[], .nil⟩
  | cons first others ih =>
      cases hfirst : first.statementCourse.outcome with
      | error refusal =>
          exact .inr ⟨[], first, others, [], refusal, rfl, .nil, hfirst⟩
      | ok number =>
          obtain ⟨numbers, hothers⟩ |
            ⟨before, node, after, numbers, refusal, rfl, hbefore, hnode⟩ := ih
          · exact .inl ⟨number :: numbers, .cons hfirst hothers⟩
          · exact .inr ⟨first :: before, node, after, number :: numbers, refusal,
              rfl, .cons hfirst hbefore, hnode⟩

namespace Evaluator

theorem statement_of_ok {node : Node} {number : Int}
    (h : node.statementCourse.outcome = .ok number) (state : Evaluator) :
    statement node state = .ok () ⟨some number, state.values ++ [number]⟩ := by
  cases node with
  | expressionStatement body =>
      have hbody := (expression_follows body state).trans (finish_of_ok h state)
      exact bind_of_ok hbody
  | _ => cases h

theorem statement_of_error {node : Node} {refusal : Refusal}
    (h : node.statementCourse.outcome = .error refusal) (state : Evaluator) :
    statement node state = .error refusal
      ⟨node.statementCourse.computed.getLast?.or state.lastValue,
        state.values⟩ := by
  cases node with
  | expressionStatement body =>
      have hbody := (expression_follows body state).trans (finish_of_error h state)
      exact bind_of_error hbody
  | _ => cases h; rfl

theorem statements_of_valued {nodes : List Node} {numbers : List Int}
    (h : Valued nodes numbers) (state : Evaluator) :
    statements nodes state = .ok ()
      ⟨(computedBy nodes).getLast?.or state.lastValue,
        state.values ++ numbers⟩ := by
  induction h generalizing state with
  | nil => simp [statements, computedBy, pure, EStateM.pure]
  | @cons node number nodes numbers hnode _ ih =>
      -- The others may compute nothing, and then this value stays the last.
      rw [statements, bind_of_ok (statement_of_ok hnode state), ih]
      have hlast := node.statementCourse.ends number hnode
      simp [computedBy, List.getLast?_append, hlast]

theorem statements_append (before after : List Node) (state : Evaluator) :
    statements (before ++ after) state =
      (statements before >>= fun _ => statements after) state := by
  induction before generalizing state with
  | nil => rfl
  | cons first others ih =>
      cases hfirst : statement first state with
      | error refusal reached =>
          simp only [List.cons_append, statements, bind, EStateM.bind, hfirst]
      | ok result reached =>
          simpa only [List.cons_append, statements, bind, EStateM.bind, hfirst]
            using ih reached

theorem statements_of_refused {before after : List Node} {node : Node}
    {numbers : List Int} {refusal : Refusal} (hbefore : Valued before numbers)
    (hnode : node.statementCourse.outcome = .error refusal) (state : Evaluator) :
    statements (before ++ node :: after) state = .error refusal
      ⟨(computedBy (before ++ [node])).getLast?.or state.lastValue,
        state.values ++ numbers⟩ := by
  rw [statements_append, bind_of_ok (statements_of_valued hbefore state),
    statements, bind_of_error (statement_of_error hnode _)]
  simp [computedBy_append_singleton, List.getLast?_append, Option.or_assoc]

end Evaluator

theorem evaluate_of_valued {nodes : List Node} {numbers : List Int}
    (h : Valued nodes numbers) : evaluate nodes = .ok numbers := by
  rw [evaluate, Evaluator.statements_of_valued h]
  rfl

theorem evaluate_of_refused {before after : List Node} {node : Node}
    {numbers : List Int} {refusal : Refusal} (hbefore : Valued before numbers)
    (hnode : node.statementCourse.outcome = .error refusal) :
    evaluate (before ++ node :: after) = .error refusal := by
  rw [evaluate, Evaluator.statements_of_refused hbefore hnode]

theorem evaluate_eq_ok_iff {nodes : List Node} {numbers : List Int} :
    evaluate nodes = .ok numbers ↔ Valued nodes numbers := by
  refine ⟨?_, evaluate_of_valued⟩
  intro h
  obtain ⟨others, hothers⟩ |
    ⟨before, node, after, others, refusal, rfl, hbefore, hnode⟩ :=
      valued_or_refused nodes
  · rw [evaluate_of_valued hothers] at h
    cases h
    exact hothers
  · rw [evaluate_of_refused hbefore hnode] at h
    cases h

theorem exists_refused_of_evaluate {nodes : List Node} {refusal : Refusal}
    (h : evaluate nodes = .error refusal) :
    ∃ node ∈ nodes, node.statementCourse.outcome = .error refusal := by
  obtain ⟨others, hothers⟩ |
    ⟨before, node, after, others, other, rfl, hbefore, hnode⟩ :=
      valued_or_refused nodes
  · rw [evaluate_of_valued hothers] at h
    cases h
  · rw [evaluate_of_refused hbefore hnode] at h
    cases h
    exact ⟨node, by simp, hnode⟩

/-! ## No value is missing -/

theorem Course.andThen_ne_noValue {first : Course} {next : Int → Course}
    (hfirst : first.outcome ≠ .error .noValue)
    (hnext : ∀ number, (next number).outcome ≠ .error .noValue) :
    (first.andThen next).outcome ≠ .error .noValue := by
  rw [outcome_andThen]
  cases houtcome : first.outcome with
  | error refusal =>
      rw [houtcome] at hfirst
      exact hfirst
  | ok number => exact hnext number

theorem Node.course_ne_noValue (node : Node) :
    node.course.outcome ≠ .error .noValue := by
  induction node with
  | binary left operator right ihLeft ihRight =>
      refine Course.andThen_ne_noValue ihLeft fun first => ?_
      refine Course.andThen_ne_noValue ihRight fun second => ?_
      rw [Operator.course]
      split <;> exact fun h => by cases h
  | parenthesized inner ih => exact ih
  | _ => exact fun h => by cases h

theorem Node.statementCourse_ne_noValue (node : Node) :
    node.statementCourse.outcome ≠ .error .noValue := by
  cases node with
  | expressionStatement body => exact body.course_ne_noValue
  | _ => exact fun h => by cases h

/-- Whatever the evaluator held, the statements before the first refused one add
their values in order, and its last value is the number computed last. -/
theorem statements_follow_courses (nodes : List Node) :
    (∃ numbers, Valued nodes numbers ∧
      ∀ state : Evaluator, Evaluator.statements nodes state = .ok ()
        ⟨(computedBy nodes).getLast?.or state.lastValue,
          state.values ++ numbers⟩) ∨
    ∃ before node after numbers refusal, nodes = before ++ node :: after ∧
      Valued before numbers ∧ node.statementCourse.outcome = .error refusal ∧
      refusal ≠ .noValue ∧
      ∀ state : Evaluator, Evaluator.statements nodes state = .error refusal
        ⟨(computedBy (before ++ [node])).getLast?.or state.lastValue,
          state.values ++ numbers⟩ := by
  obtain ⟨numbers, hnodes⟩ |
    ⟨before, node, after, numbers, refusal, rfl, hbefore, hnode⟩ :=
      valued_or_refused nodes
  · exact .inl ⟨numbers, hnodes, Evaluator.statements_of_valued hnodes⟩
  · have hpresent : refusal ≠ .noValue := by
      rintro rfl
      exact node.statementCourse_ne_noValue hnode
    exact .inr ⟨before, node, after, numbers, refusal, rfl, hbefore, hnode,
      hpresent, Evaluator.statements_of_refused hbefore hnode⟩

end ExprLang

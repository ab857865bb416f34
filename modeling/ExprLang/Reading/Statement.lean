import ExprLang.Reading.Expression

/-!
# Reading statements

A statement that begins with an identifier is an assignment and ends with a
semicolon.  Every other statement is an expression, after which a semicolon may
stand.  Every statement takes at least one token (`statement_taken_pos`), which
is why reading all statements comes to an end.
-/

namespace ExprLang.Reading

def assignment (terminal : Token) (tokens : List Token) : Reading Node :=
  let sign := expect terminal .assign (tokens.drop 1)
  let initializer := expression terminal 0 (tokens.drop 2)
  let ending :=
    expect terminal .semicolon (tokens.drop (2 + initializer.taken))
  ⟨.assignStatement (tokens.headD terminal) initializer.value,
    sign.faults ++ initializer.faults ++ ending.faults,
    2 + initializer.taken + 1⟩

def expressionStatement (terminal : Token) (tokens : List Token) :
    Reading Node :=
  let body := expression terminal 0 tokens
  let next := (tokens.drop body.taken).headD terminal
  ⟨.expressionStatement body.value, body.faults,
    if next.kind = .semicolon then body.taken + 1 else body.taken⟩

def statement (terminal : Token) (tokens : List Token) : Reading Node :=
  if (tokens.headD terminal).kind = .identifier then
    assignment terminal tokens
  else expressionStatement terminal tokens

theorem operand_taken_eq_zero {terminal : Token} {tokens : List Token}
    (h : (operand terminal tokens).taken = 0) :
    ∃ token rest, tokens = token :: rest ∧ token.kind = .semicolon := by
  cases tokens with
  | nil => simp [operand] at h
  | cons token rest =>
      refine ⟨token, rest, rfl, ?_⟩
      rw [operand] at h
      split at h
      · assumption
      all_goals simp [expect] at h

theorem statement_taken_pos (terminal : Token) (tokens : List Token) :
    0 < (statement terminal tokens).taken := by
  rw [statement]
  split
  · simp [assignment]
  · simp only [expressionStatement]
    split
    · omega
    · rename_i hnext
      by_cases hzero : (operand terminal tokens).taken = 0
      · obtain ⟨token, rest, rfl, hkind⟩ := operand_taken_eq_zero hzero
        simp only [expression, hzero, List.drop_zero] at hnext ⊢
        have hnone : Operator.ofToken? token = none := by
          simp [Operator.ofToken?, OperatorKind.ofTokenKind?, hkind]
        simp [continuation, hnone, hkind] at hnext
      · rw [expression]
        simp only
        omega

def statements (terminal : Token) (tokens : List Token) :
    Reading (List Node) :=
  match tokens with
  | [] => ⟨[], [], 0⟩
  | token :: rest =>
      if token.kind = .endOfText then ⟨[], [], 0⟩
      else
        let first := statement terminal (token :: rest)
        let others := statements terminal ((token :: rest).drop first.taken)
        ⟨first.value :: others.value, first.faults ++ others.faults,
          first.taken + others.taken⟩
termination_by tokens.length
decreasing_by
  rw [List.length_drop]
  exact Nat.sub_lt (by simp) (statement_taken_pos terminal (token :: rest))

end ExprLang.Reading

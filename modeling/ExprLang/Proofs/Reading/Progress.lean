import ExprLang.Reading.Session

/-!
# Progress of sessions

Every call is answered.  It never moves the cursor back and never takes away a
diagnostic, a statement moves the cursor forward, and at the end of the text
asking for the next statement changes nothing.  `Progresses` says so of one
call and `Progression` of a session, call after call.
-/

namespace ExprLang

namespace Session

/-- The answers that a call can have.  Only iterating is ever exhausted, and
only a place before the cursor can be out of range. -/
def Call.Accepts : Call → Answer → Prop
  | .nextStatement, .statement _ => True
  | .iterate, .nodes [_] => True
  | .iterate, .exhausted => True
  | .allStatements, .nodes _ => True
  | .statement, .nodes [_] => True
  | .assignment, .nodes [_] => True
  | .expression, .nodes [_] => True
  | .binary _, .nodes [_] => True
  | .operand, .nodes [_] => True
  | .operator, .operator _ => True
  | .atEnd, .flag _ => True
  | .peek _, .token _ => True
  | .peek offset, .outOfRange => offset < 0
  | .consume, .token _ => True
  | .expect _, .token _ => True
  | _, _ => False

structure Progresses (session : Session) (call : Call) (answer : Answer)
    (next : Session) : Prop where
  accepts : call.Accepts answer
  exhausted : answer = .exhausted ↔ call = .iterate ∧ session.atEnd = true
  tokens : next.tokens = session.tokens
  current : session.current ≤ next.current
  bag : session.bag.entries <+: next.bag.entries
  statement : ∀ node, answer = .statement (some node) →
    session.current < next.current

inductive Progression : Session → List Call → List Answer → Session → Prop
  | done {session : Session} : Progression session [] [] session
  | call {session next last : Session} {call : Call} {answer : Answer}
      {calls : List Call} {answers : List Answer}
      (hfirst : session.Progresses call answer next)
      (hothers : Progression next calls answers last) :
      Progression session (call :: calls) (answer :: answers) last

/-! ## One call -/

section

variable {session : Session} {call : Call} {answer : Answer}

theorem progresses_unchanged (haccepts : call.Accepts answer)
    (hexhausted : answer = .exhausted ↔ call = .iterate ∧ session.atEnd = true)
    (hstatement : ∀ node, answer ≠ .statement (some node)) :
    session.Progresses call answer session where
  accepts := haccepts
  exhausted := hexhausted
  tokens := rfl
  current := Nat.le_refl _
  bag := List.prefix_rfl
  statement node hnode := absurd hnode (hstatement node)

theorem progresses_accept {α : Type} {reading : Reading α}
    (haccepts : call.Accepts answer) (hexhausted : answer ≠ .exhausted)
    (hcall : ¬ (call = .iterate ∧ session.atEnd = true))
    (htaken : ∀ node, answer = .statement (some node) → 0 < reading.taken) :
    session.Progresses call answer (session.accept reading).2 where
  accepts := haccepts
  exhausted := iff_of_false hexhausted hcall
  tokens := rfl
  current := Nat.le_add_right _ _
  bag := List.prefix_append _ _
  statement node hnode := Nat.lt_add_of_pos_right (htaken node hnode)

theorem progresses_answerNode {reading : Reading Node}
    (haccepts : ∀ node, call.Accepts (.nodes [node]))
    (hcall : ¬ (call = .iterate ∧ session.atEnd = true)) :
    session.Progresses call (session.answerNode reading).1
      (session.answerNode reading).2 :=
  progresses_accept (haccepts reading.value) (by simp [answerNode]) hcall
    (by simp [answerNode])

end

theorem peek?_isSome (session : Session) {offset : Int} (h : 0 ≤ offset) :
    (session.peek? offset).isSome = true := by
  obtain ⟨distance, rfl⟩ := Int.eq_ofNat_of_zero_le h
  -- A place beyond the tokens is moved back to the terminal one.
  have hplace : min ((session.current : Int) + distance)
      ((session.tokens.length : Int) - 1) =
        (min (session.current + distance) session.tokens.body.length : Nat) := by
    simp only [TokenSequence.length]
    omega
  have hlength : min (session.current + distance) session.tokens.body.length <
      session.tokens.toList.length := by
    simp only [TokenSequence.length_toList, TokenSequence.length]
    omega
  rw [peek?, hplace, Text.itemAt?_natCast, List.getElem?_eq_getElem hlength]
  rfl

theorem perform_progresses (session : Session) (call : Call) :
    session.Progresses call (session.perform call).1
      (session.perform call).2 := by
  cases call with
  | nextStatement =>
      rw [perform_nextStatement]
      split
      case isTrue hend => exact progresses_unchanged trivial (by simp) (by simp)
      case isFalse hend =>
        exact progresses_accept trivial (by simp) (by simp) fun _ _ =>
          Reading.statement_taken_pos _ _
  | iterate =>
      rw [perform_iterate]
      split
      case isTrue hend =>
        exact progresses_unchanged trivial (by simp [hend]) (by simp)
      case isFalse hend =>
        exact progresses_answerNode (fun _ => trivial) (by simp [hend])
  | allStatements =>
      rw [perform_allStatements]
      exact progresses_accept trivial (by simp) (by simp) (by simp)
  | statement => exact progresses_answerNode (fun _ => trivial) (by simp)
  | assignment => exact progresses_answerNode (fun _ => trivial) (by simp)
  | expression => exact progresses_answerNode (fun _ => trivial) (by simp)
  | binary least => exact progresses_answerNode (fun _ => trivial) (by simp)
  | operand => exact progresses_answerNode (fun _ => trivial) (by simp)
  | operator =>
      unfold perform
      exact progresses_unchanged trivial (by simp) (by simp)
  | atEnd =>
      unfold perform
      exact progresses_unchanged trivial (by simp) (by simp)
  | peek offset =>
      rw [perform_peek]
      split
      case h_1 token htoken =>
        exact progresses_unchanged trivial (by simp) (by simp)
      case h_2 hnone =>
        have hoffset : offset < 0 := Int.not_le.mp fun hle => by
          simpa [hnone] using session.peek?_isSome hle
        exact progresses_unchanged hoffset (by simp) (by simp)
  | consume =>
      unfold perform
      exact {
        accepts := trivial
        exhausted := by simp
        tokens := rfl
        current := Nat.le_add_right _ _
        bag := List.prefix_rfl
        statement := by simp }
  | expect required =>
      unfold perform
      exact progresses_accept trivial (by simp) (by simp) (by simp)

/-! ## Statements until the end -/

theorem atEnd_eq (session : Session) :
    session.atEnd = decide (session.next.kind = .endOfText) := rfl

theorem perform_nextStatement_of_atEnd {session : Session}
    (h : session.atEnd = true) :
    session.perform .nextStatement = (.statement none, session) := by
  rw [perform_nextStatement, if_pos h]

theorem atEnd_of_nextStatement_none {session : Session}
    (h : (session.perform .nextStatement).1 = .statement none) :
    session.atEnd = true := by
  rw [perform_nextStatement] at h
  split at h
  case isTrue hend => exact hend
  case isFalse => simp at h

theorem performAll_of_atEnd {session : Session} (h : session.atEnd = true)
    (count : Nat) :
    session.performAll (List.replicate count .nextStatement) =
      (List.replicate count (.statement none), session) := by
  induction count with
  | zero => rfl
  | succ count ih =>
      rw [List.replicate_succ, performAll, perform_nextStatement_of_atEnd h, ih]
      rfl

theorem accept_none {α : Type} (session : Session) (value : α) :
    (session.accept ⟨value, [], 0⟩).2 = session := by
  simp [accept, Bag.append]

theorem accept_accept {α β γ : Type} (session : Session) (first : Reading α)
    (second : Reading β) (value : γ) :
    ((session.accept first).2.accept second).2 =
      (session.accept ⟨value, first.faults ++ second.faults,
        first.taken + second.taken⟩).2 := by
  simp [accept, Bag.append, Nat.add_assoc]

theorem remaining_accept {α : Type} (session : Session) (reading : Reading α) :
    (session.accept reading).2.remaining =
      session.remaining.drop reading.taken := by
  simp [accept, remaining]

end Session

namespace Reading

theorem statements_length_le (terminal : Token) (tokens : List Token) :
    (statements terminal tokens).value.length ≤ tokens.length := by
  fun_induction statements terminal tokens with
  | case1 => simp
  | case2 => simp
  | case3 token rest hkind first others ih =>
      have hpos : 0 < first.taken := statement_taken_pos terminal (token :: rest)
      have hothers : others.value.length ≤
          ((token :: rest).drop first.taken).length := ih
      simp only [List.length_drop, List.length_cons] at hothers ⊢
      omega

theorem statements_ends {terminal : Token}
    (hterminal : terminal.kind = .endOfText) (tokens : List Token) :
    ((tokens.drop (statements terminal tokens).taken).headD terminal).kind =
      .endOfText := by
  fun_induction statements terminal tokens with
  | case1 => exact hterminal
  | case2 token rest hkind => exact hkind
  | case3 token rest hkind first others ih =>
      rw [List.drop_drop] at ih
      exact ih

end Reading

namespace Session

theorem perform_nextStatement_of_remaining {session : Session} {token : Token}
    {rest : List Token} (hremaining : session.remaining = token :: rest)
    (hkind : token.kind ≠ .endOfText) :
    session.perform .nextStatement =
      (.statement (some (Reading.statement session.tokens.terminal
          (token :: rest)).value),
        (session.accept (Reading.statement session.tokens.terminal
          (token :: rest))).2) := by
  have hnext : session.atEnd = false := by
    simp [atEnd_eq, next, hremaining, hkind]
  simp [perform_nextStatement, hnext, hremaining, accept]

theorem performAll_nextStatement {session : Session} {terminal : Token}
    {tokens : List Token} (hterminal : session.tokens.terminal = terminal)
    (hremaining : session.remaining = tokens) :
    session.performAll (List.replicate
        (Reading.statements terminal tokens).value.length .nextStatement) =
      ((Reading.statements terminal tokens).value.map
          fun node => .statement (some node),
        (session.accept (Reading.statements terminal tokens)).2) := by
  fun_induction Reading.statements terminal tokens generalizing session with
  | case1 => simp [performAll, accept_none]
  | case2 => simp [performAll, accept_none]
  | case3 token rest hkind first others =>
      rename_i ih
      have hfirst : session.perform .nextStatement =
          (.statement (some first.value), (session.accept first).2) := by
        rw [perform_nextStatement_of_remaining hremaining hkind, hterminal]
      -- The others are read by the session that took over the first.
      have hothers := @ih (session.accept first).2 hterminal
        (by rw [remaining_accept, hremaining])
      rw [List.length_cons, List.replicate_succ, performAll, hfirst, hothers,
        accept_accept session first others]
      rfl

theorem atEnd_after_statements (session : Session) :
    (session.accept (Reading.statements session.tokens.terminal
      session.remaining)).2.atEnd = true := by
  have hends := Reading.statements_ends session.tokens.terminal_kind
    session.remaining
  rw [atEnd_eq, next, remaining_accept]
  exact decide_eq_true hends

/-! ## A session of calls -/

theorem performAll_progresses (session : Session) (calls : List Call) :
    Progression session calls (session.performAll calls).1
      (session.performAll calls).2 := by
  induction calls generalizing session with
  | nil => exact .done
  | cons call calls ih => exact .call (session.perform_progresses call) (ih _)

theorem Progression.current_le {session last : Session} {calls : List Call}
    {answers : List Answer} (h : Progression session calls answers last) :
    session.current ≤ last.current := by
  induction h with
  | done => exact Nat.le_refl _
  | call hfirst _ ih => exact Nat.le_trans hfirst.current ih

theorem Progression.prefix_bag {session last : Session} {calls : List Call}
    {answers : List Answer} (h : Progression session calls answers last) :
    session.bag.entries <+: last.bag.entries := by
  induction h with
  | done => exact List.prefix_rfl
  | call hfirst _ ih => exact hfirst.bag.trans ih

/-- Whatever is called on a session, each call makes progress, and after all
of them reading all statements is to ask for the next one until there is none,
which then stays so.  A fresh session has at most as many statements as it has
tokens before the last one.  Reading recurs as deeply as expressions nest; a
machine with a bounded stack answers where its stack suffices. -/
theorem performAll_makes_progress (tokens : TokenSequence) (bag : Bag)
    (calls : List Call) :
    ∃ answers last,
      (ofTokens tokens bag).performAll calls = (answers, last) ∧
      Progression (ofTokens tokens bag) calls answers last ∧
      (ofTokens tokens bag).current ≤ last.current ∧
      bag.entries <+: last.bag.entries ∧
      (∃ statements drained,
        last.perform .allStatements = (.nodes statements, drained) ∧
        last.performAll (List.replicate statements.length .nextStatement) =
          (statements.map fun node => .statement (some node), drained) ∧
        drained.perform .nextStatement = (.statement none, drained)) ∧
      ((last.perform .nextStatement).1 = .statement none →
        ∀ count, last.performAll (List.replicate count .nextStatement) =
          (List.replicate count (.statement none), last)) ∧
      ∃ statements,
        ((ofTokens tokens bag).perform .allStatements).1 = .nodes statements ∧
        statements.length ≤ tokens.body.length := by
  have hprogression := performAll_progresses (ofTokens tokens bag) calls
  let last := ((ofTokens tokens bag).performAll calls).2
  refine ⟨_, last, rfl, hprogression, hprogression.current_le,
    hprogression.prefix_bag, ⟨_, _, rfl, ?_, ?_⟩, ?_, _, rfl, ?_⟩
  · exact performAll_nextStatement rfl rfl
  · exact perform_nextStatement_of_atEnd last.atEnd_after_statements
  · exact fun hnone => performAll_of_atEnd (atEnd_of_nextStatement_none hnone)
  · exact Reading.statements_length_le tokens.terminal tokens.body

end Session

end ExprLang

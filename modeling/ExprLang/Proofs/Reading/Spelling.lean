import ExprLang.Proofs.Reading.Mending
import Mathlib.Data.List.Forall2

/-!
# Trees and the tokens that spell them

A tree is spelled by the tokens of its operands and operators in textual
order, with parentheses where it has them.  A reading without faults spells
its tree by the tokens it takes (`statements_spelled`), and a tree grouped as
the two-level grammar demands is read back from any tokens that spell it
(`statements_of_spelled`).
-/

namespace ExprLang

namespace Node

inductive SpelledBy : Node → List Token → Prop
  | number {token : Token} (hkind : token.kind = .integerLiteral) :
      SpelledBy (.number token.number) [token]
  | reference {token : Token} (hkind : token.kind = .identifier) :
      SpelledBy (.reference token) [token]
  | parenthesized {inner : Node} {opening closing : Token}
      {tokens : List Token} (hopening : opening.kind = .leftParen)
      (hinner : SpelledBy inner tokens) (hclosing : closing.kind = .rightParen) :
      SpelledBy (.parenthesized inner) (opening :: (tokens ++ [closing]))
  | binary {left right : Node} {operator : Operator} {token : Token}
      {before after : List Token} (hleft : SpelledBy left before)
      (hoperator : Operator.ofToken? token = some operator)
      (hright : SpelledBy right after) :
      SpelledBy (.binary left operator right) (before ++ token :: after)

inductive StatementSpelledBy : Node → List Token → Prop
  | assignment {identifier sign ending : Token} {initializer : Node}
      {tokens : List Token} (hidentifier : identifier.kind = .identifier)
      (hsign : sign.kind = .assign) (hinitializer : SpelledBy initializer tokens)
      (hending : ending.kind = .semicolon) :
      StatementSpelledBy (.assignStatement identifier initializer)
        (identifier :: sign :: (tokens ++ [ending]))
  | expression {body : Node} {tokens : List Token}
      (hbody : SpelledBy body tokens) (hbegins : BeginsUnnamed tokens) :
      StatementSpelledBy (.expressionStatement body) tokens
  | terminated {body : Node} {tokens : List Token} {ending : Token}
      (hbody : SpelledBy body tokens) (hbegins : BeginsUnnamed tokens)
      (hending : ending.kind = .semicolon) :
      StatementSpelledBy (.expressionStatement body) (tokens ++ [ending])

/-! ## What is spelled needs no mending -/

theorem SpelledBy.mended {node : Node} {tokens : List Token}
    (h : node.SpelledBy tokens) : node.MendedFrom tokens [] := by
  induction h with
  | number hkind => exact .number hkind
  | reference hkind => exact .reference hkind
  | parenthesized hopening _ hclosing ih =>
      have hnone := Operator.ofToken?_of_kind_eq_none hclosing rfl
      simpa [hclosing] using MendedFrom.parenthesized hopening ih hnone
  | binary _ hoperator _ ihLeft ihRight => exact .binary ihLeft hoperator ihRight

theorem StatementSpelledBy.mended {node : Node} {tokens : List Token}
    (h : node.StatementSpelledBy tokens) :
    node.StatementMendedFrom tokens [] := by
  cases h with
  | @assignment identifier sign ending _ _ hidentifier hsign hinitializer
      hending =>
      have hnone := Operator.ofToken?_of_kind_eq_none hending rfl
      have hwhole : StatementMendedFrom _ (identifier :: sign :: _) _ :=
        .assignment hidentifier hinitializer.mended hnone
      simpa [hsign, hending] using hwhole
  | expression hbody hbegins => exact .expression hbody.mended hbegins
  | terminated hbody hbegins hending =>
      exact .terminated hbody.mended hbegins hending

theorem allMended_of_spelled {nodes : List Node} {segments : List (List Token)}
    (h : List.Forall₂ StatementSpelledBy nodes segments) :
    AllMendedFrom nodes segments.flatten [] := by
  induction h with
  | nil => exact .nil
  | cons hfirst _ ih => exact .cons hfirst.mended ih

theorem SpelledBy.begins {node : Node} {tokens : List Token}
    (h : node.SpelledBy tokens) : BeginsStatement tokens :=
  h.mended.begins

end Node

namespace Reading

open Node

/-! ## A reading without faults spells its tree -/

theorem expect_faults_eq_nil {terminal : Token} {required : TokenKind}
    {tokens : List Token} (hterminal : terminal.kind ≠ required)
    (h : (expect terminal required tokens).faults = []) :
    ∃ found rest, tokens = found :: rest ∧ found.kind = required := by
  cases tokens with
  | nil => simp [expect, hterminal] at h
  | cons found rest =>
      refine ⟨found, rest, rfl, ?_⟩
      by_contra hkind
      simp [expect, hkind] at h

theorem take_one_add (token : Token) (rest : List Token) (count : Nat) :
    (token :: rest).take (1 + count) = token :: rest.take count := by
  rw [Nat.add_comm, List.take_succ_cons]

structure Spells (tokens : List Token) (reading : Reading Node) : Prop where
  taken_le : reading.taken ≤ tokens.length
  spelled : reading.value.SpelledBy (tokens.take reading.taken)

/-- A reading that goes on after a left operand takes tokens that are there,
and they complete the spelling of the operand. -/
structure Completes (left : Node) (tokens : List Token)
    (reading : Reading Node) : Prop where
  taken_le : reading.taken ≤ tokens.length
  spelled : ∀ before, left.SpelledBy before →
    reading.value.SpelledBy (before ++ tokens.take reading.taken)

theorem spells_invariant {terminal : Token}
    (hterminal : terminal.kind = .endOfText) :
    Invariant terminal
      (fun tokens reading => reading.faults = [] → Spells tokens reading)
      (fun _ tokens reading => reading.faults = [] → Spells tokens reading)
      (fun _ left tokens reading =>
        reading.faults = [] → Completes left tokens reading) where
  ended := by simp
  semicolon := by simp
  integer token rest hkind _ := ⟨by simp, .number hkind⟩
  identifier token rest hkind _ := ⟨by simp, .reference hkind⟩
  unexpected := by simp
  parenthesized := by
    intro token rest inner hkind hinner hfaults
    obtain ⟨hnone, hclosing⟩ := List.append_eq_nil_iff.mp hfaults
    obtain ⟨hle, hspelled⟩ := hinner hnone
    obtain ⟨closing, others, hdrop, hclosing⟩ :=
      expect_faults_eq_nil (by simp [hterminal]) hclosing
    have htake : (token :: rest).take (1 + inner.taken + 1) =
        token :: (rest.take inner.taken ++ [closing]) := by
      rw [Nat.add_assoc, take_one_add, List.take_add, hdrop]
      rfl
    have hlength := congrArg List.length hdrop
    simp only [List.length_drop, List.length_cons] at hlength
    refine ⟨?_, ?_⟩
    · simp only [List.length_cons]
      omega
    · rw [htake]
      exact .parenthesized hkind hspelled hclosing
  continued := by
    intro least tokens first whole hfirst hwhole hfaults
    obtain ⟨hfirstNone, hwholeNone⟩ := List.append_eq_nil_iff.mp hfaults
    have hoperand := hfirst hfirstNone
    have hrest := hwhole hwholeNone
    refine ⟨?_, ?_⟩
    · have := hoperand.taken_le
      have := hrest.taken_le
      simp only [List.length_drop] at this
      simp only
      omega
    · simp only [List.take_add]
      exact hrest.spelled _ hoperand.spelled
  finished := by
    intro least left tokens _ _
    refine ⟨Nat.zero_le _, ?_⟩
    intro before hbefore
    simpa using hbefore
  operated := by
    intro least left token rest operator right whole hoperator _ hright hwhole
      hfaults
    obtain ⟨hrightNone, hwholeNone⟩ := List.append_eq_nil_iff.mp hfaults
    have hoperand := hright hrightNone
    have hrest := hwhole hwholeNone
    refine ⟨?_, ?_⟩
    · have := hoperand.taken_le
      have := hrest.taken_le
      simp only [List.length_drop] at this
      simp only [List.length_cons]
      omega
    · intro before hbefore
      have hspelled :=
        hrest.spelled _ (.binary hbefore hoperator hoperand.spelled)
      rw [Nat.add_assoc, take_one_add, List.take_add]
      simpa using hspelled

theorem expression_spells {terminal : Token}
    (hterminal : terminal.kind = .endOfText) {tokens : List Token}
    (h : (expression terminal 0 tokens).faults = []) :
    Spells tokens (expression terminal 0 tokens) :=
  (spells_invariant hterminal).expression 0 tokens h

theorem beginsUnnamed_take {token : Token} {count : Nat} (rest : List Token)
    (hkind : token.kind ≠ .identifier) (hcount : 0 < count) :
    BeginsUnnamed ((token :: rest).take count) := by
  obtain ⟨count, rfl⟩ := Nat.exists_eq_succ_of_ne_zero (Nat.ne_of_gt hcount)
  exact ⟨token, rest.take count, List.take_succ_cons, hkind⟩

theorem assignment_spelled {terminal : Token}
    (hterminal : terminal.kind = .endOfText) {token : Token}
    {rest : List Token} (hkind : token.kind = .identifier)
    (h : (assignment terminal (token :: rest)).faults = []) :
    (assignment terminal (token :: rest)).taken ≤ (token :: rest).length ∧
      (assignment terminal (token :: rest)).value.StatementSpelledBy
        ((token :: rest).take (assignment terminal (token :: rest)).taken) := by
  simp only [assignment, List.append_eq_nil_iff] at h
  obtain ⟨⟨hexpected, hinitializer⟩, hended⟩ := h
  obtain ⟨sign, others, hothers, hsign⟩ :=
    expect_faults_eq_nil (by simp [hterminal]) hexpected
  obtain ⟨ending, left, hleft, hending⟩ :=
    expect_faults_eq_nil (by simp [hterminal]) hended
  have hrest : rest = sign :: others := hothers
  subst hrest
  have hbody := expression_spells hterminal hinitializer
  have hdrop : others.drop (expression terminal 0 others).taken =
      ending :: left := by
    rw [← hleft, ← List.drop_drop]
    rfl
  have htake : (token :: sign :: others).take
      (2 + (expression terminal 0 others).taken + 1) =
        token :: sign ::
          (others.take (expression terminal 0 others).taken ++ [ending]) := by
    rw [Nat.add_assoc, Nat.add_comm 2, List.take_succ_cons,
      List.take_succ_cons, List.take_add, hdrop]
    rfl
  have hlength := congrArg List.length hdrop
  simp only [List.length_drop, List.length_cons] at hlength
  refine ⟨?_, ?_⟩
  · simp only [assignment, List.drop_succ_cons, List.drop_zero,
      List.length_cons]
    omega
  · simp only [assignment, List.drop_succ_cons, List.drop_zero, htake]
    exact .assignment hkind hsign hbody.spelled hending

theorem expressionStatement_spelled {terminal : Token}
    (hterminal : terminal.kind = .endOfText) {token : Token}
    {rest : List Token} (hkind : token.kind ≠ .identifier)
    (h : (expressionStatement terminal (token :: rest)).faults = []) :
    (expressionStatement terminal (token :: rest)).taken ≤
        (token :: rest).length ∧
      (expressionStatement terminal (token :: rest)).value.StatementSpelledBy
        ((token :: rest).take
          (expressionStatement terminal (token :: rest)).taken) := by
  have hbody := expression_spells hterminal h
  have hpos : 0 < (expression terminal 0 (token :: rest)).taken := by
    obtain ⟨first, others, htake, -⟩ := hbody.spelled.begins
    by_contra hzero
    rw [Nat.eq_zero_of_not_pos hzero] at htake
    simp at htake
  have hbegins := beginsUnnamed_take rest hkind hpos
  have hle := hbody.taken_le
  simp only [expressionStatement]
  split
  case isTrue hnext =>
    cases hdrop : (token :: rest).drop
        (expression terminal 0 (token :: rest)).taken with
    | nil => simp [hdrop, hterminal] at hnext
    | cons ending others =>
        rw [hdrop] at hnext
        have hlength := congrArg List.length hdrop
        simp only [List.length_drop, List.length_cons] at hlength
        refine ⟨?_, ?_⟩
        · simp only [List.length_cons]
          omega
        · rw [List.take_add, hdrop]
          exact .terminated hbody.spelled hbegins hnext
  case isFalse => exact ⟨hle, .expression hbody.spelled hbegins⟩

theorem statement_spelled {terminal : Token}
    (hterminal : terminal.kind = .endOfText) {token : Token}
    {rest : List Token} (h : (statement terminal (token :: rest)).faults = []) :
    (statement terminal (token :: rest)).taken ≤ (token :: rest).length ∧
      (statement terminal (token :: rest)).value.StatementSpelledBy
        ((token :: rest).take (statement terminal (token :: rest)).taken) := by
  by_cases hkind : token.kind = .identifier
  · rw [statement, List.headD_cons, if_pos hkind] at h ⊢
    exact assignment_spelled hterminal hkind h
  · rw [statement, List.headD_cons, if_neg hkind] at h ⊢
    exact expressionStatement_spelled hterminal hkind h

/-- If reading all statements finds no fault, then the tokens fall into pieces
that spell the statements one by one. -/
theorem statements_spelled {terminal : Token}
    (hterminal : terminal.kind = .endOfText) {tokens : List Token}
    (hbody : ∀ token ∈ tokens, token.kind ≠ .endOfText)
    (h : (statements terminal tokens).faults = []) :
    ∃ segments, segments.flatten = tokens ∧
      List.Forall₂ StatementSpelledBy (statements terminal tokens).value
        segments := by
  fun_induction statements terminal tokens with
  | case1 => exact ⟨[], rfl, .nil⟩
  | case2 token rest hkind => exact absurd hkind (hbody token (by simp))
  | case3 token rest hkind first others ih =>
      obtain ⟨hfirst, hothers⟩ := List.append_eq_nil_iff.mp h
      obtain ⟨-, hspelled⟩ := statement_spelled hterminal hfirst
      obtain ⟨segments, hflatten, hsegments⟩ :=
        ih (fun later hlater => hbody later (List.mem_of_mem_drop hlater))
          hothers
      refine ⟨(token :: rest).take first.taken :: segments, ?_,
        .cons hspelled hsegments⟩
      rw [List.flatten_cons, hflatten, List.take_append_drop]

/-! ## A grouped tree is read back from its spelling -/

theorem statements_of_spelled {terminal : Token}
    (hterminal : terminal.kind = .endOfText) {nodes : List Node}
    {segments : List (List Token)}
    (h : List.Forall₂ StatementSpelledBy nodes segments)
    (hgrouped : ∀ node ∈ nodes, node.Grouped) :
    statements terminal segments.flatten =
      ⟨nodes, [], segments.flatten.length⟩ :=
  statements_of_mended hterminal (allMended_of_spelled h) hgrouped

end Reading

end ExprLang

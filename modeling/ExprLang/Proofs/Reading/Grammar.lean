import ExprLang.Analysis
import ExprLang.Proofs.Lexicon.Lexemes
import ExprLang.Proofs.Reading.Spelling
import ExprLang.Reading.Session

/-!
# The grammar

    program   = { statement }
    statement = identifier ":=" expression ";" | unnamed [ ";" ]
    expression = operand { operator operand }
    operand   = integer | identifier | "(" expression ")"

An unnamed expression is one that does not begin with an identifier.  Reading
finds no fault in exactly the token sequences of this language, and then its
statements are those of the derivation.
-/

namespace ExprLang

namespace Grammar

def operators : List TokenKind := [.plus, .minus, .star, .slash, .percent]

inductive Symbol where
  | operand
  | expression
  deriving DecidableEq, Repr

/-- The token lists that a symbol of the grammar stands for. -/
inductive Derives : Symbol → List Token → Prop
  | integer {token : Token} (hkind : token.kind = .integerLiteral) :
      Derives .operand [token]
  | identifier {token : Token} (hkind : token.kind = .identifier) :
      Derives .operand [token]
  | parenthesized {opening closing : Token} {inner : List Token}
      (hopening : opening.kind = .leftParen)
      (hinner : Derives .expression inner)
      (hclosing : closing.kind = .rightParen) :
      Derives .operand (opening :: (inner ++ [closing]))
  | single {tokens : List Token} (hoperand : Derives .operand tokens) :
      Derives .expression tokens
  | chain {first rest : List Token} {token : Token}
      (hfirst : Derives .operand first) (hoperator : token.kind ∈ operators)
      (hrest : Derives .expression rest) :
      Derives .expression (first ++ token :: rest)

inductive Statement : List Token → Prop
  | assignment {identifier sign ending : Token} {initializer : List Token}
      (hidentifier : identifier.kind = .identifier)
      (hsign : sign.kind = .assign)
      (hinitializer : Derives .expression initializer)
      (hending : ending.kind = .semicolon) :
      Statement (identifier :: sign :: (initializer ++ [ending]))
  | unnamed {body : List Token} (hbody : Derives .expression body)
      (hbegins : Node.BeginsUnnamed body) : Statement body
  | terminated {body : List Token} {ending : Token}
      (hbody : Derives .expression body) (hbegins : Node.BeginsUnnamed body)
      (hending : ending.kind = .semicolon) : Statement (body ++ [ending])

structure Derivation (tokens : List Token) (segments : List (List Token)) :
    Prop where
  statement : ∀ segment ∈ segments, Statement segment
  flatten : segments.flatten = tokens

def Program (tokens : List Token) : Prop :=
  ∃ segments, Derivation tokens segments

/-! ## From trees to derivations -/

theorem mem_operators_iff (token : Token) :
    token.kind ∈ operators ↔
      ∃ operator, Operator.ofToken? token = some operator := by
  cases hkind : token.kind <;>
    simp [operators, Operator.ofToken?, OperatorKind.ofTokenKind?, hkind]

theorem Derives.append {before after : List Token} {token : Token}
    (hbefore : Derives .expression before)
    (hoperator : token.kind ∈ operators)
    (hafter : Derives .expression after) :
    Derives .expression (before ++ token :: after) := by
  generalize hsymbol : Symbol.expression = symbol at hbefore
  induction hbefore with
  | integer => contradiction
  | identifier => contradiction
  | parenthesized => contradiction
  | single hoperand => exact .chain hoperand hoperator hafter
  | chain hfirst hinner _ _ ih =>
      rw [List.append_assoc, List.cons_append]
      exact .chain hfirst hinner (ih rfl)

theorem derives_of_spelledBy {node : Node} {tokens : List Token}
    (h : node.SpelledBy tokens) : Derives .expression tokens := by
  induction h with
  | number hkind => exact .single (.integer hkind)
  | reference hkind => exact .single (.identifier hkind)
  | parenthesized hopening _ hclosing ih =>
      exact .single (.parenthesized hopening ih hclosing)
  | @binary _ _ operator token _ _ _ hoperator _ ihLeft ihRight =>
      exact ihLeft.append ((mem_operators_iff token).mpr ⟨operator, hoperator⟩)
        ihRight

theorem statement_of_spelledBy {node : Node} {tokens : List Token}
    (h : node.StatementSpelledBy tokens) : Statement tokens := by
  cases h with
  | assignment hidentifier hsign hinitializer hending =>
      exact .assignment hidentifier hsign (derives_of_spelledBy hinitializer)
        hending
  | expression hbody hbegins =>
      exact .unnamed (derives_of_spelledBy hbody) hbegins
  | terminated hbody hbegins hending =>
      exact .terminated (derives_of_spelledBy hbody) hbegins hending

theorem derivation_of_spelledBy {nodes : List Node}
    {segments : List (List Token)}
    (h : List.Forall₂ Node.StatementSpelledBy nodes segments) :
    Derivation segments.flatten segments := by
  refine ⟨?_, rfl⟩
  induction h with
  | nil => simp
  | cons hfirst _ ih =>
      intro segment hsegment
      rcases List.mem_cons.mp hsegment with rfl | hsegment
      · exact statement_of_spelledBy hfirst
      · exact ih segment hsegment

/-! ## From derivations to trees -/

/-- An operand goes before a grouped tree without breaking the grouping: if it
multiplies a sum, then it joins the left operand of the sum. -/
theorem exists_grouped_binary {left right : Node} {before after : List Token}
    {token : Token} {operator : Operator} (hleft : left.SpelledBy before)
    (hleftGrouped : left.Grouped) (hbinary : left.isBinary = false)
    (hoperator : Operator.ofToken? token = some operator)
    (hright : right.SpelledBy after) (hrightGrouped : right.Grouped) :
    ∃ node : Node,
      node.SpelledBy (before ++ token :: after) ∧ node.Grouped := by
  have hleftAdditive := Node.isAdditive_of_isBinary hbinary
  cases hlevel : operator.kind.isAdditive with
  | true =>
      refine ⟨_, .binary hleft hoperator hright, ?_⟩
      exact ⟨fun _ => hleftAdditive, by simp [hlevel], hleftGrouped,
        hrightGrouped⟩
  | false =>
      cases hsum : right.isAdditive with
      | false =>
          refine ⟨_, .binary hleft hoperator hright, ?_⟩
          exact ⟨by simp [hlevel], fun _ => ⟨hbinary, hsum⟩, hleftGrouped,
            hrightGrouped⟩
      | true =>
          cases hright with
          | number => contradiction
          | reference => contradiction
          | parenthesized => contradiction
          | @binary inner last outer sign start finish hinner hsign hlast =>
              obtain ⟨hinnerAdditive, -, hinnerGrouped, hlastGrouped⟩ :=
                hrightGrouped
              have hspelled :=
                Node.SpelledBy.binary (.binary hleft hoperator hinner) hsign
                  hlast
              rw [List.append_assoc, List.cons_append] at hspelled
              refine ⟨_, hspelled, ?_, ?_, ?_, hlastGrouped⟩
              · exact fun _ => hlevel
              · intro hmultiplicative
                rw [Node.isAdditive] at hsum
                simp [hsum] at hmultiplicative
              · exact ⟨by simp [hlevel],
                  fun _ => ⟨hbinary, hinnerAdditive hsum⟩, hleftGrouped,
                  hinnerGrouped⟩

theorem Derives.exists_tree {symbol : Symbol} {tokens : List Token}
    (h : Derives symbol tokens) :
    ∃ node : Node, node.SpelledBy tokens ∧ node.Grouped ∧
      (symbol = .operand → node.isBinary = false) := by
  induction h with
  | integer hkind => exact ⟨_, .number hkind, trivial, fun _ => rfl⟩
  | identifier hkind => exact ⟨_, .reference hkind, trivial, fun _ => rfl⟩
  | parenthesized hopening _ hclosing ih =>
      obtain ⟨inner, hinner, hgrouped, -⟩ := ih
      exact ⟨_, .parenthesized hopening hinner hclosing, hgrouped,
        fun _ => rfl⟩
  | single _ ih =>
      obtain ⟨node, hnode, hgrouped, -⟩ := ih
      exact ⟨node, hnode, hgrouped, by simp⟩
  | @chain first rest token _ hoperator _ ihFirst ihRest =>
      obtain ⟨left, hleft, hleftGrouped, hbinary⟩ := ihFirst
      obtain ⟨right, hright, hrightGrouped, -⟩ := ihRest
      obtain ⟨operator, hoperator⟩ := (mem_operators_iff token).mp hoperator
      obtain ⟨node, hnode, hgrouped⟩ :=
        exists_grouped_binary hleft hleftGrouped (hbinary rfl) hoperator hright
          hrightGrouped
      exact ⟨node, hnode, hgrouped, by simp⟩

theorem Statement.exists_tree {segment : List Token} (h : Statement segment) :
    ∃ node : Node, node.StatementSpelledBy segment ∧ node.Grouped := by
  cases h with
  | assignment hidentifier hsign hinitializer hending =>
      obtain ⟨body, hbody, hgrouped, -⟩ := hinitializer.exists_tree
      exact ⟨_, .assignment hidentifier hsign hbody hending, hgrouped⟩
  | unnamed hbody hbegins =>
      obtain ⟨body, hbody, hgrouped, -⟩ := hbody.exists_tree
      exact ⟨_, .expression hbody hbegins, hgrouped⟩
  | terminated hbody hbegins hending =>
      obtain ⟨body, hbody, hgrouped, -⟩ := hbody.exists_tree
      exact ⟨_, .terminated hbody hbegins hending, hgrouped⟩

theorem exists_trees {segments : List (List Token)}
    (h : ∀ segment ∈ segments, Statement segment) :
    ∃ nodes, List.Forall₂ Node.StatementSpelledBy nodes segments ∧
      ∀ node ∈ nodes, node.Grouped := by
  induction segments with
  | nil => exact ⟨[], .nil, by simp⟩
  | cons segment segments ih =>
      obtain ⟨node, hnode, hgrouped⟩ := (h segment (by simp)).exists_tree
      obtain ⟨nodes, hnodes, hothers⟩ :=
        ih fun other hother => h other (List.mem_cons_of_mem segment hother)
      exact ⟨node :: nodes, .cons hnode hnodes,
        List.forall_mem_cons.mpr ⟨hgrouped, hothers⟩⟩

end Grammar

namespace Reading

open Grammar

theorem statements_of_derivation {terminal : Token}
    (hterminal : terminal.kind = .endOfText) {tokens : List Token}
    {segments : List (List Token)} (h : Derivation tokens segments) :
    (statements terminal tokens).faults = [] ∧
      List.Forall₂ Node.StatementSpelledBy (statements terminal tokens).value
        segments := by
  obtain ⟨nodes, hnodes, hgrouped⟩ := exists_trees h.statement
  have hread := statements_of_spelled hterminal hnodes hgrouped
  rw [h.flatten] at hread
  rw [hread]
  exact ⟨rfl, hnodes⟩

theorem statements_faults_eq_nil_iff {terminal : Token}
    (hterminal : terminal.kind = .endOfText) {tokens : List Token}
    (hbody : ∀ token ∈ tokens, token.kind ≠ .endOfText) :
    (statements terminal tokens).faults = [] ↔ Program tokens := by
  constructor
  · intro h
    obtain ⟨segments, rfl, hsegments⟩ := statements_spelled hterminal hbody h
    exact ⟨segments, derivation_of_spelledBy hsegments⟩
  · rintro ⟨segments, hsegments⟩
    exact (statements_of_derivation hterminal hsegments).1

end Reading

namespace Session

open Grammar

theorem append_eq_self_iff (bag : Bag) (faults : List Fault) :
    bag.append (faults.map Fault.diagnostic) = bag ↔ faults = [] := by
  cases bag with
  | mk entries => simp [Bag.append]

theorem isClean_iff (source : String) :
    (analyze source).isClean = true ↔
      (tokenize source).faults = [] ∧
        (Reading.statements (tokenize source).tokens.terminal
          (tokenize source).tokens.body).faults = [] := by
  simp [Analysis.isClean, Analysis.diagnostics, analyze]

/-- Reading all statements adds a diagnostic unless the tokens are a program,
and of a program it yields the statements of any derivation.  A source is clean
if it is made of words and these are a program. -/
theorem allStatements_accepts_programs :
    (∀ (tokens : TokenSequence) (bag : Bag),
      (∀ token ∈ tokens.body, token.kind ≠ .endOfText) →
        (((ofTokens tokens bag).perform .allStatements).2.bag = bag ↔
          Program tokens.body) ∧
        ∀ segments, Derivation tokens.body segments → ∃ statements,
          ((ofTokens tokens bag).perform .allStatements).1 =
            .nodes statements ∧
          List.Forall₂ Node.StatementSpelledBy statements segments) ∧
    ∀ source : String, (analyze source).isClean = true ↔
      (tokenize source).faults = [] ∧
        Program (tokenize source).tokens.body := by
  refine ⟨?_, ?_⟩
  · intro tokens bag hbody
    have hterminal := tokens.terminal_kind
    refine ⟨?_, ?_⟩
    · rw [← Reading.statements_faults_eq_nil_iff hterminal hbody]
      exact append_eq_self_iff bag _
    · intro segments hsegments
      exact ⟨_, rfl, (Reading.statements_of_derivation hterminal hsegments).2⟩
  · intro source
    have hbody : ∀ token ∈ (tokenize source).tokens.body,
        token.kind ≠ .endOfText :=
      fun token htoken => (tokenize_isLexical source token htoken).kind_ne_endOfText
    rw [isClean_iff,
      Reading.statements_faults_eq_nil_iff
        (tokenize source).tokens.terminal_kind hbody]

def terminatedNumber : TokenSequence :=
  ⟨[⟨.integerLiteral, "1", Span.covering 0 ['1'], .integer 1⟩,
      ⟨.semicolon, ";", Span.covering 1 [';'], .absent⟩],
    Token.endOfText 2, rfl⟩

theorem terminatedNumber_accepted :
    (∀ token ∈ terminatedNumber.body, token.kind ≠ .endOfText) ∧
      ((ofTokens terminatedNumber Bag.empty).perform .allStatements).2.bag =
        Bag.empty := by
  have hbody : ∀ token ∈ terminatedNumber.body, token.kind ≠ .endOfText := by
    decide
  have hstatement : Statement terminatedNumber.body :=
    .terminated (.single (.integer rfl)) ⟨_, [], rfl, by decide⟩ rfl
  have hprogram : Program terminatedNumber.body := by
    refine ⟨[terminatedNumber.body], ?_, by simp⟩
    intro segment hsegment
    rw [List.mem_singleton.mp hsegment]
    exact hstatement
  exact ⟨hbody, (allStatements_accepts_programs.1 terminatedNumber Bag.empty
    hbody).1.mpr hprogram⟩

end Session

end ExprLang

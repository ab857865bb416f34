import ExprLang.Analysis
import ExprLang.Proofs.Layout.Canonical
import ExprLang.Proofs.Lexicon.Placement
import ExprLang.Proofs.Reading.Spelling

/-!
# Canonical source is read back

The tokens of canonical source spell a tree that is like the one written, and
reading yields it because trees that were read are grouped.  So a source
without error nodes, whatever its faults, has a canonical source without
faults that reads as the same tree, prints as itself and evaluates the same.
-/

namespace ExprLang

namespace Node

theorem Writable.isKnown {node : Node} (h : node.Writable) :
    ∀ piece ∈ node.pieces, piece.isKnown = true := by
  induction node with
  | number value => simp [Node.pieces, Piece.isKnown]
  | reference identifier => simp [Node.pieces, Piece.isKnown]
  | parenthesized inner ih =>
      simp only [Node.pieces, List.forall_mem_cons, List.forall_mem_append]
      exact ⟨rfl, ih h, by simp [Piece.isKnown]⟩
  | binary left operator right ihLeft ihRight =>
      simp only [Node.pieces, List.forall_mem_cons, List.forall_mem_append]
      exact ⟨ihLeft h.1, rfl, rfl, rfl, ihRight h.2.2⟩
  | error span => exact h.elim
  | expressionStatement inner _ => exact h.elim
  | assignStatement identifier initializer _ => exact h.elim

theorem StatementWritable.isKnown {node : Node} (h : node.StatementWritable) :
    ∀ piece ∈ node.statementPieces, piece.isKnown = true := by
  cases node with
  | expressionStatement body =>
      simp only [statementPieces, List.forall_mem_append]
      exact ⟨h.1.isKnown, by simp [Piece.isKnown]⟩
  | assignStatement identifier initializer =>
      simp only [statementPieces, List.forall_mem_cons, List.forall_mem_append]
      exact ⟨rfl, rfl, rfl, rfl, h.2.isKnown, by simp [Piece.isKnown]⟩
  | _ => exact h.elim

/-! ## The tokens spell a tree alike -/

theorem Writable.spelled {node : Node} (h : node.Writable)
    {tokens : List Token}
    (htokens : tokens.map Token.unplaced =
      node.pieces.flatMap Piece.bareTokens) :
    ∃ other : Node, other.SpelledBy tokens ∧ node.Alike other := by
  induction node generalizing tokens with
  | number value =>
      simp only [Node.pieces, List.flatMap_cons, Piece.bareTokens, List.flatMap_nil,
        List.append_nil] at htokens
      obtain ⟨token, rfl, htoken⟩ := List.map_eq_singleton_iff.mp htokens
      have hkind := Token.kind_eq_of_unplaced htoken
      have hvalue : token.value = .integer value := by
        have hsame := congrArg Token.value htoken
        exact hsame.trans (congrArg TokenValue.integer
          (Lexicon.signedValue_toString value))
      have hnumber : token.number = value := by rw [Token.number, hvalue]
      subst hnumber
      exact ⟨_, .number hkind, .number _⟩
  | reference identifier =>
      have hbare := Piece.bareTokens_of_isLexical h.1
      rw [h.2] at hbare
      simp only [Node.pieces, List.flatMap_cons, hbare, List.flatMap_nil,
        List.append_nil] at htokens
      obtain ⟨token, rfl, htoken⟩ := List.map_eq_singleton_iff.mp htokens
      have hkind := Token.kind_eq_of_unplaced htoken
      exact ⟨_, .reference (hkind.trans h.2), .reference htoken.symm⟩
  | parenthesized inner ih =>
      simp only [Node.pieces, List.flatMap_cons, List.flatMap_append,
        List.flatMap_nil, List.append_nil, Piece.bareTokens,
        List.singleton_append] at htokens
      obtain ⟨opening, others, rfl, hopening, hothers⟩ :=
        List.map_eq_cons_iff.mp htokens
      obtain ⟨body, last, rfl, hbody, hlast⟩ :=
        List.map_eq_append_iff.mp hothers
      obtain ⟨closing, rfl, hclosing⟩ := List.map_eq_singleton_iff.mp hlast
      obtain ⟨other, hspelled, halike⟩ := ih h hbody
      exact ⟨_, .parenthesized (Token.kind_eq_of_unplaced hopening) hspelled
        (Token.kind_eq_of_unplaced hclosing), .parenthesized halike⟩
  | binary left operator right ihLeft ihRight =>
      obtain ⟨hleft, ⟨hlexical, hoperator⟩, hright⟩ := h
      have hbare := Piece.bareTokens_of_isLexical hlexical
      simp only [Node.pieces, List.flatMap_cons, List.flatMap_append,
        Operator.symbol, hbare, List.singleton_append] at htokens
      obtain ⟨before, rest, rfl, hbefore, hrest⟩ :=
        List.map_eq_append_iff.mp htokens
      obtain ⟨token, after, rfl, htoken, hafter⟩ :=
        List.map_eq_cons_iff.mp hrest
      obtain ⟨first, hfirst, hfirstAlike⟩ := ihLeft hleft hbefore
      obtain ⟨second, hsecond, hsecondAlike⟩ := ihRight hright hafter
      obtain ⟨other, hread, hsame⟩ :=
        Operator.ofToken?_of_unplaced hoperator htoken
      exact ⟨_, .binary hfirst hread hsecond,
        .binary hfirstAlike hsame hsecondAlike⟩
  | error span => exact h.elim
  | expressionStatement inner _ => exact h.elim
  | assignStatement identifier initializer _ => exact h.elim

theorem Alike.beginsNamed {node other : Node} (h : node.Alike other) :
    node.beginsNamed = other.beginsNamed := by
  induction h with
  | binary _ _ _ ihLeft _ => exact ihLeft
  | _ => rfl

theorem SpelledBy.beginsUnnamed {node : Node} {tokens : List Token}
    (h : node.SpelledBy tokens) (hnamed : node.beginsNamed = false) :
    BeginsUnnamed tokens := by
  induction h with
  | number hkind => exact ⟨_, [], rfl, by simp [hkind]⟩
  | reference _ => contradiction
  | parenthesized hopening _ _ _ => exact ⟨_, _, rfl, by simp [hopening]⟩
  | binary _ _ _ ihLeft _ =>
      obtain ⟨token, rest, rfl, hkind⟩ := ihLeft hnamed
      exact ⟨token, _, rfl, hkind⟩

theorem StatementWritable.spelled {node : Node} (h : node.StatementWritable)
    {tokens : List Token}
    (htokens : tokens.map Token.unplaced =
      node.statementPieces.flatMap Piece.bareTokens) :
    ∃ other : Node, other.StatementSpelledBy tokens ∧
      node.StatementAlike other := by
  cases node with
  | expressionStatement body =>
      simp only [statementPieces, List.flatMap_append, List.flatMap_cons,
        List.flatMap_nil, Piece.bareTokens, List.append_nil] at htokens
      obtain ⟨other, hspelled, halike⟩ := h.1.spelled htokens
      have hunnamed := hspelled.beginsUnnamed (halike.beginsNamed ▸ h.2)
      exact ⟨_, .expression hspelled hunnamed, .expression halike⟩
  | assignStatement identifier initializer =>
      obtain ⟨⟨hlexical, hidentifier⟩, hwritable⟩ := h
      have hbare := Piece.bareTokens_of_isLexical hlexical
      rw [hidentifier] at hbare
      simp only [statementPieces, List.flatMap_append, List.flatMap_cons,
        hbare, List.flatMap_nil, List.append_nil] at htokens
      simp only [Piece.bareTokens, List.nil_append, List.append_nil,
        List.singleton_append] at htokens
      obtain ⟨name, rest, rfl, hname, hrest⟩ := List.map_eq_cons_iff.mp htokens
      obtain ⟨sign, others, rfl, hsign, hothers⟩ :=
        List.map_eq_cons_iff.mp hrest
      obtain ⟨body, last, rfl, hbody, hlast⟩ :=
        List.map_eq_append_iff.mp hothers
      obtain ⟨ending, rfl, hending⟩ := List.map_eq_singleton_iff.mp hlast
      obtain ⟨other, hspelled, halike⟩ := hwritable.spelled hbody
      exact ⟨_, .assignment ((Token.kind_eq_of_unplaced hname).trans hidentifier)
        (Token.kind_eq_of_unplaced hsign) hspelled
        (Token.kind_eq_of_unplaced hending), .assignment hname.symm halike⟩
  | _ => exact h.elim

/-! ## Lines of statements -/

/-- The pieces of a line that holds a statement.  A semicolon may end an
expression, too, though canonical source leaves it out. -/
inductive LineOf : Node → List Piece → Prop
  | canonical (node : Node) : LineOf node node.statementPieces
  | terminated (body : Node) : LineOf (.expressionStatement body)
      (body.pieces ++ [.word .semicolon [';'], .blank '\n'])

namespace LineOf

variable {node : Node} {line : List Piece}

theorem isKnown (h : LineOf node line) (hwritable : node.StatementWritable) :
    ∀ piece ∈ line, piece.isKnown = true := by
  cases h with
  | canonical => exact hwritable.isKnown
  | terminated body =>
      exact List.forall_mem_append.mpr
        ⟨hwritable.1.isKnown, by simp [Piece.isKnown]⟩

theorem pieces (h : LineOf node line) (hwritable : node.StatementWritable)
    (rest : List Char) :
    Piece.pieces (line.flatMap Piece.text ++ rest) =
      line ++ Piece.pieces rest := by
  cases h with
  | canonical => exact hwritable.pieces rest
  | terminated body =>
      have hended := beginsDelimiter_cons
        (by decide : '\n' ∈ Lexicon.delimiters) rest
      have hclosed := beginsDelimiter_cons
        (by decide : ';' ∈ Lexicon.delimiters) ('\n' :: rest)
      have hmark := pieces_of_mark
        (by decide : .semicolon ∈ TokenKind.punctuation) hended
      rw [pieces_of_lineFeed] at hmark
      simp only [List.flatMap_append, List.flatMap_cons, List.flatMap_nil,
        Piece.text, List.append_assoc, List.cons_append, List.nil_append]
      rw [hwritable.1.pieces hclosed]
      exact congrArg (body.pieces ++ ·) hmark

theorem spelled (h : LineOf node line) (hwritable : node.StatementWritable)
    {tokens : List Token}
    (htokens : tokens.map Token.unplaced = line.flatMap Piece.bareTokens) :
    ∃ other : Node, other.StatementSpelledBy tokens ∧
      node.StatementAlike other := by
  cases h with
  | canonical => exact hwritable.spelled htokens
  | terminated body =>
      simp only [List.flatMap_append, List.flatMap_cons, List.flatMap_nil,
        Piece.bareTokens, List.append_nil] at htokens
      obtain ⟨before, last, rfl, hbefore, hlast⟩ :=
        List.map_eq_append_iff.mp htokens
      obtain ⟨ending, rfl, hending⟩ := List.map_eq_singleton_iff.mp hlast
      obtain ⟨other, hspelled, halike⟩ := hwritable.1.spelled hbefore
      have hunnamed :=
        hspelled.beginsUnnamed (halike.beginsNamed ▸ hwritable.2)
      exact ⟨_, .terminated hspelled hunnamed
        (Token.kind_eq_of_unplaced hending), .expression halike⟩

end LineOf

section

variable {nodes : List Node} {lines : List (List Piece)}

theorem pieces_lines (h : List.Forall₂ LineOf nodes lines)
    (hwritable : ∀ node ∈ nodes, node.StatementWritable) :
    Piece.pieces (lines.flatten.flatMap Piece.text) = lines.flatten := by
  induction h with
  | nil => exact Piece.pieces_nil
  | cons hfirst _ ih =>
      obtain ⟨hnode, hnodes⟩ := List.forall_mem_cons.mp hwritable
      rw [List.flatten_cons, List.flatMap_append, hfirst.pieces hnode,
        ih hnodes]

theorem isKnown_lines (h : List.Forall₂ LineOf nodes lines)
    (hwritable : ∀ node ∈ nodes, node.StatementWritable) :
    ∀ piece ∈ lines.flatten, piece.isKnown = true := by
  induction h with
  | nil => simp
  | cons hfirst _ ih =>
      obtain ⟨hnode, hnodes⟩ := List.forall_mem_cons.mp hwritable
      exact List.forall_mem_append.mpr ⟨hfirst.isKnown hnode, ih hnodes⟩

theorem lines_spelled (h : List.Forall₂ LineOf nodes lines)
    (hwritable : ∀ node ∈ nodes, node.StatementWritable) {tokens : List Token}
    (htokens : tokens.map Token.unplaced =
      lines.flatten.flatMap Piece.bareTokens) :
    ∃ others segments, segments.flatten = tokens ∧
      List.Forall₂ StatementSpelledBy others segments ∧
      List.Forall₂ StatementAlike nodes others := by
  induction h generalizing tokens with
  | nil =>
      rw [List.map_eq_nil_iff.mp htokens]
      exact ⟨[], [], rfl, .nil, .nil⟩
  | cons hline _ ih =>
      obtain ⟨hnode, hnodes⟩ := List.forall_mem_cons.mp hwritable
      rw [List.flatten_cons, List.flatMap_append] at htokens
      obtain ⟨first, rest, rfl, hfirst, hrest⟩ :=
        List.map_eq_append_iff.mp htokens
      obtain ⟨other, hspelled, halike⟩ := hline.spelled hnode hfirst
      obtain ⟨others, segments, rfl, hsegments, hothers⟩ := ih hnodes hrest
      exact ⟨other :: others, first :: segments, rfl,
        .cons hspelled hsegments, .cons halike hothers⟩

theorem analyze_lines (h : List.Forall₂ LineOf nodes lines)
    (hwritable : ∀ node ∈ nodes, node.StatementWritable)
    (hgrouped : ∀ node ∈ nodes, node.Grouped) {text : String}
    (htext : text.toList = lines.flatten.flatMap Piece.text) :
    (analyze text).diagnostics = [] ∧
      List.Forall₂ StatementAlike nodes (analyze text).statements := by
  have hpieces : Piece.pieces text.toList = lines.flatten := by
    rw [htext, pieces_lines h hwritable]
  have hlexical : (tokenize text).faults = [] := by
    simp only [tokenize, hpieces]
    exact Piece.placeUnknown_eq_nil (isKnown_lines h hwritable) 0
  have htokens : (tokenize text).tokens.body.map Token.unplaced =
      lines.flatten.flatMap Piece.bareTokens := by
    simp only [tokenize, hpieces]
    exact Piece.map_unplaced_placeTokens 0 _
  obtain ⟨others, segments, hflatten, hspelled, halike⟩ :=
    lines_spelled h hwritable htokens
  have hread := Reading.statements_of_spelled
    (tokenize text).tokens.terminal_kind hspelled
    (Node.grouped_of_alike halike hgrouped)
  rw [hflatten] at hread
  refine ⟨?_, ?_⟩
  · simp [Analysis.diagnostics, analyze, hlexical, hread]
  · simp only [analyze, hread]
    exact halike

end

/-! ## Trees alike have the same canonical source -/

theorem Alike.pieces {node other : Node} (h : node.Alike other)
    (hwritable : node.Writable) : other.pieces = node.pieces := by
  induction h with
  | number value => rfl
  | error span other => exact hwritable.elim
  | reference hidentifier =>
      have hlexeme := Token.lexeme_eq_of_unplaced hidentifier
      rw [Node.pieces, Node.pieces, hlexeme]
  | parenthesized _ ih => rw [Node.pieces, Node.pieces, ih hwritable]
  | binary _ hoperator _ ihLeft ihRight =>
      have htoken := Operator.token_eq_of_unplaced hoperator
      have hkind := Token.kind_eq_of_unplaced htoken
      have hlexeme := Token.lexeme_eq_of_unplaced htoken
      rw [Node.pieces, Node.pieces, ihLeft hwritable.1, ihRight hwritable.2.2,
        hkind, Operator.symbol, Operator.symbol, hlexeme]

theorem StatementAlike.statementPieces {node other : Node}
    (h : node.StatementAlike other) (hwritable : node.StatementWritable) :
    other.statementPieces = node.statementPieces := by
  cases h with
  | expression hbody =>
      rw [Node.statementPieces, Node.statementPieces, hbody.pieces hwritable.1]
  | assignment hidentifier hinitializer =>
      have hlexeme := Token.lexeme_eq_of_unplaced hidentifier
      rw [Node.statementPieces, Node.statementPieces,
        hinitializer.pieces hwritable.2, hlexeme]

theorem Alike.isExpression {node other : Node} (h : node.Alike other) :
    other.IsExpression := by
  induction h with
  | binary _ _ _ ihLeft ihRight => exact ⟨ihLeft, ihRight⟩
  | parenthesized _ ih => exact ih
  | _ => trivial

theorem StatementAlike.isStatement {node other : Node}
    (h : node.StatementAlike other) : other.IsStatement := by
  cases h with
  | expression hbody => exact hbody.isExpression
  | assignment _ hinitializer => exact hinitializer.isExpression

theorem Alike.numbersWithinLimit {node other : Node} (h : node.Alike other) :
    other.numbersWithinLimit = node.numbersWithinLimit := by
  induction h with
  | binary _ _ _ ihLeft ihRight =>
      rw [Node.numbersWithinLimit, Node.numbersWithinLimit, ihLeft, ihRight]
  | parenthesized _ ih => exact ih
  | _ => rfl

theorem StatementAlike.numbersWithinLimit {node other : Node}
    (h : node.StatementAlike other) :
    other.numbersWithinLimit = node.numbersWithinLimit := by
  cases h with
  | expression hbody => exact hbody.numbersWithinLimit
  | assignment _ hinitializer => exact hinitializer.numbersWithinLimit

end Node

theorem sourceText_alike {nodes others : List Node}
    (h : List.Forall₂ Node.StatementAlike nodes others)
    (hwritable : ∀ node ∈ nodes, node.StatementWritable) :
    sourceText others = sourceText nodes := by
  have hothers : (∀ other ∈ others, other.IsStatement) ∧
      others.all Node.numbersWithinLimit = true ∧
      others.flatMap Node.statementPieces =
        nodes.flatMap Node.statementPieces := by
    induction h with
    | nil => simp
    | cons hfirst _ ih =>
        obtain ⟨hnode, hnodes⟩ := List.forall_mem_cons.mp hwritable
        obtain ⟨hstatements, hwithin, hpieces⟩ := ih hnodes
        refine ⟨List.forall_mem_cons.mpr ⟨hfirst.isStatement, hstatements⟩, ?_, ?_⟩
        · rw [List.all_cons, hfirst.numbersWithinLimit, hnode.numbersWithinLimit,
            hwithin]
          rfl
        · rw [List.flatMap_cons, List.flatMap_cons,
            hfirst.statementPieces hnode, hpieces]
  obtain ⟨hstatements, hwithin, hpieces⟩ := hothers
  rw [sourceText_eq hstatements hwithin, hpieces,
    sourceText_of_writable hwritable]

theorem analyze_sourceText {nodes : List Node} {out : String}
    (hwritable : ∀ node ∈ nodes, node.StatementWritable)
    (hgrouped : ∀ node ∈ nodes, node.Grouped)
    (hout : sourceText nodes = .ok out) :
    (analyze out).diagnostics = [] ∧
      List.Forall₂ Node.StatementAlike nodes (analyze out).statements := by
  rw [sourceText_of_writable hwritable] at hout
  have hlines : List.Forall₂ Node.LineOf nodes
      (nodes.map Node.statementPieces) :=
    List.forall₂_map_right_iff.mpr (List.forall₂_same.mpr fun node _ =>
      .canonical node)
  refine Node.analyze_lines hlines hwritable hgrouped ?_
  rw [← Except.ok.inj hout, String.toList_ofList, ← List.flatMap_def]

theorem analyze_writable (source : String)
    (h : Node.ErrorFree ((analyze source).statements.flatMap (Node.preorder 0))) :
    ∀ node ∈ (analyze source).statements, node.StatementWritable := by
  intro node hnode
  have hmade := Reading.statements_madeOf (tokenize_isLexical source) node hnode
  have herror : Node.ErrorFree (node.preorder 0) := fun entry hentry =>
    h entry (List.mem_flatMap.mpr ⟨node, hnode, hentry⟩)
  exact hmade.writable herror

/-- A source whose tree has no error node has a canonical source.  That one is
without faults, reads as the same tree up to places, is its own canonical
source, and evaluates to the same values or the same refusal. -/
theorem sourceText_round_trip (source : String)
    (h : ∀ entry ∈ (analyze source).statements.flatMap (Node.preorder 0),
      entry.2.isError = false) :
    ∃ out, sourceText (analyze source).statements = .ok out ∧
      (analyze out).diagnostics = [] ∧
      (analyze out).statements.map Node.unplaced =
        (analyze source).statements.map Node.unplaced ∧
      sourceText (analyze out).statements = .ok out ∧
      SameOutcome ((analyze source).statements.flatMap (Node.preorder 0))
        ((analyze out).statements.flatMap (Node.preorder 0))
        (evaluate (analyze source).statements)
        (evaluate (analyze out).statements) ∧
      ∀ refusal other, evaluate (analyze source).statements = .error refusal →
        evaluate (analyze out).statements = .error other →
          other.explanation.message = refusal.explanation.message := by
  have hwritable := analyze_writable source h
  have hgrouped : ∀ node ∈ (analyze source).statements, node.Grouped :=
    Reading.statements_grouped _ _
  have hout := sourceText_of_writable hwritable
  obtain ⟨hclean, halike⟩ := analyze_sourceText hwritable hgrouped hout
  have houtcome := evaluate_alike halike
  refine ⟨_, hout, hclean, Node.map_unplaced_of_alike halike,
    (sourceText_alike halike hwritable).trans hout, houtcome, ?_⟩
  intro refusal other hrefusal hother
  rw [hrefusal, hother] at houtcome
  exact houtcome.explanation.1

theorem round_trip_of_faulty :
    (analyze "x := # 1 / 0").diagnostics ≠ [] ∧
      (∀ entry ∈ (analyze "x := # 1 / 0").statements.flatMap (Node.preorder 0),
        entry.2.isError = false) ∧
      ∃ out, sourceText (analyze "x := # 1 / 0").statements = .ok out ∧
        (analyze out).diagnostics = [] := by
  have herror : ∀ entry ∈
      (analyze "x := # 1 / 0").statements.flatMap (Node.preorder 0),
      entry.2.isError = false := by decide +kernel
  obtain ⟨out, hout, hclean, -⟩ := sourceText_round_trip "x := # 1 / 0" herror
  exact ⟨by decide +kernel, herror, out, hout, hclean⟩

end ExprLang

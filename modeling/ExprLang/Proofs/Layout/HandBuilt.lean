import ExprLang.Proofs.Layout.RoundTrip
import ExprLang.Proofs.Tree.Regrouping

/-!
# Trees built by hand

A tree built by hand may be grouped in any way, and its tokens may have any
kinds, values and spans.  Its canonical source shows nothing of this.  When the
numbers are representable and the lexemes are words of the right kind, the
source is read as the tree regrouped, with the tokens that its lexemes spell.
-/

namespace ExprLang

/-! ## Tokens that lexemes spell -/

def OperatorKind.tokenKind : OperatorKind → TokenKind
  | plus => .plus
  | minus => .minus
  | multiply => .star
  | divide => .slash
  | mod => .percent

theorem OperatorKind.ofTokenKind?_tokenKind (kind : OperatorKind) :
    ofTokenKind? kind.tokenKind = some kind := by
  cases kind <;> rfl

theorem OperatorKind.tokenKind_mem_punctuation (kind : OperatorKind) :
    kind.tokenKind ∈ TokenKind.punctuation := by
  cases kind <;> decide

namespace Token

def IsName (token : Token) : Prop :=
  token.lexeme.toList ∈ Lexicon.names ∧
    ∀ keyword ∈ TokenKind.keywords, token.lexeme ≠ keyword.name

def respelled (kind : TokenKind) (token : Token) : Token :=
  (Piece.token 0 kind token.lexeme.toList).unplaced

end Token

def Operator.respelled (operator : Operator) : Operator :=
  ⟨operator.kind, operator.token.respelled operator.kind.tokenKind⟩

namespace Node

/-- Numbers are representable, identifiers are names, and operators are spelled
as their kinds demand. -/
def Spellable : Node → Prop
  | number value => Lexicon.isRepresentable value = true
  | binary left operator right =>
      left.Spellable ∧
        operator.symbol = operator.kind.tokenKind.name ∧
        right.Spellable
  | parenthesized inner => inner.Spellable
  | reference identifier => identifier.IsName
  | error _ => False
  | expressionStatement _ => False
  | assignStatement _ _ => False

def StatementSpellable : Node → Prop
  | expressionStatement body => body.Spellable ∧ body.beginsNamed = false
  | assignStatement identifier initializer =>
      identifier.IsName ∧ initializer.Spellable
  | _ => False

/-- The tree with the tokens that its lexemes spell. -/
def respelled : Node → Node
  | expressionStatement body => .expressionStatement body.respelled
  | assignStatement identifier initializer =>
      .assignStatement (identifier.respelled .identifier) initializer.respelled
  | number value => .number value
  | binary left operator right =>
      .binary left.respelled operator.respelled right.respelled
  | parenthesized inner => .parenthesized inner.respelled
  | reference identifier => .reference (identifier.respelled .identifier)
  | error _ => .error Span.nowhere

@[simp] theorem unplaced_respelled (node : Node) :
    node.respelled.unplaced = node.respelled := by
  induction node with
  | binary left operator right ihLeft ihRight =>
      rw [respelled, unplaced, ihLeft, ihRight]
      rfl
  | parenthesized inner ih => rw [respelled, unplaced, ih]
  | expressionStatement body ih => rw [respelled, unplaced, ih]
  | assignStatement identifier initializer ih =>
      rw [respelled, unplaced, ih]
      rfl
  | _ => rfl

@[simp] theorem isBinary_respelled (node : Node) :
    node.respelled.isBinary = node.isBinary := by
  cases node <;> rfl

@[simp] theorem isAdditive_respelled (node : Node) :
    node.respelled.isAdditive = node.isAdditive := by
  cases node <;> rfl

@[simp] theorem beginsNamed_respelled (node : Node) :
    node.respelled.beginsNamed = node.beginsNamed := by
  induction node with
  | binary left operator right ihLeft _ => exact ihLeft
  | _ => rfl

@[simp] theorem sort_respelled (node : Node) :
    node.respelled.sort = node.sort := by
  cases node <;> rfl

@[simp] theorem numbersWithinLimit_respelled (node : Node) :
    node.respelled.numbersWithinLimit = node.numbersWithinLimit := by
  induction node with
  | binary left operator right ihLeft ihRight =>
      rw [respelled, numbersWithinLimit, ihLeft, ihRight, numbersWithinLimit]
  | parenthesized inner ih => exact ih
  | expressionStatement body ih => exact ih
  | assignStatement identifier initializer ih => exact ih
  | _ => rfl

theorem Grouped.respelled {node : Node} (h : node.Grouped) :
    node.respelled.Grouped := by
  induction node with
  | binary left operator right ihLeft ihRight =>
      obtain ⟨hsum, hproduct, hleft, hright⟩ := h
      refine ⟨?_, ?_, ihLeft hleft, ihRight hright⟩
      · rw [isAdditive_respelled]
        exact hsum
      · rw [isBinary_respelled, isAdditive_respelled]
        exact hproduct
  | parenthesized inner ih => exact ih h
  | expressionStatement body ih => exact ih h
  | assignStatement identifier initializer ih => exact ih h
  | _ => trivial

end Node

/-! ## Spellable trees become writable -/

theorem Token.lexeme_respelled (kind : TokenKind) (token : Token) :
    (token.respelled kind).lexeme = token.lexeme :=
  String.ofList_toList

theorem Token.isLexical_respelled {kind : TokenKind} {token : Token}
    (h : Lexicon.IsLexeme kind token.lexeme.toList) :
    (token.respelled kind).IsLexical :=
  ⟨(h.isLexical 0).lexeme, (h.isLexical 0).value⟩

theorem Token.IsName.isLexical {token : Token} (h : token.IsName) :
    (token.respelled .identifier).IsLexical := by
  refine isLexical_respelled (Lexicon.isLexeme_of_name h.1 ?_)
  intro keyword hkeyword hspelled
  exact h.2 keyword hkeyword (String.toList_inj.mp hspelled)

theorem Operator.isLexical_respelled {operator : Operator}
    (h : operator.symbol = operator.kind.tokenKind.name) :
    operator.respelled.token.IsLexical := by
  have hlexeme := Lexicon.isLexeme_of_punctuation
    operator.kind.tokenKind_mem_punctuation
  rw [← h] at hlexeme
  exact Token.isLexical_respelled hlexeme

theorem Operator.ofToken?_respelled (operator : Operator) :
    ofToken? operator.respelled.token = some operator.respelled :=
  Option.map_eq_some_iff.mpr
    ⟨operator.kind, operator.kind.ofTokenKind?_tokenKind, rfl⟩

namespace Node

theorem Spellable.isExpression {node : Node} (h : node.Spellable) :
    node.IsExpression := by
  induction node with
  | binary left operator right ihLeft ihRight => exact ⟨ihLeft h.1, ihRight h.2.2⟩
  | parenthesized inner ih => exact ih h
  | number value => trivial
  | reference identifier => trivial
  | error span => exact h.elim
  | expressionStatement body _ => exact h.elim
  | assignStatement identifier initializer _ => exact h.elim

theorem StatementSpellable.isStatement {node : Node}
    (h : node.StatementSpellable) : node.IsStatement := by
  cases node with
  | expressionStatement body => exact h.1.isExpression
  | assignStatement identifier initializer => exact h.2.isExpression
  | _ => exact h.elim

theorem Spellable.writable {node : Node} (h : node.Spellable) :
    node.respelled.Writable := by
  induction node with
  | number value => exact h
  | reference identifier => exact ⟨h.isLexical, rfl⟩
  | parenthesized inner ih => exact ih h
  | binary left operator right ihLeft ihRight =>
      obtain ⟨hleft, hoperator, hright⟩ := h
      exact ⟨ihLeft hleft,
        ⟨Operator.isLexical_respelled hoperator, operator.ofToken?_respelled⟩,
        ihRight hright⟩
  | error span => exact h.elim
  | expressionStatement body _ => exact h.elim
  | assignStatement identifier initializer _ => exact h.elim

theorem StatementSpellable.writable {node : Node}
    (h : node.StatementSpellable) : node.respelled.StatementWritable := by
  cases node with
  | expressionStatement body =>
      exact ⟨h.1.writable, body.beginsNamed_respelled.trans h.2⟩
  | assignStatement identifier initializer =>
      exact ⟨⟨h.1.isLexical, rfl⟩, h.2.writable⟩
  | _ => exact h.elim

/-! ## The text stays as it is -/

theorem Spellable.text_respelled {node : Node} (h : node.Spellable) :
    node.respelled.pieces.flatMap Piece.text =
      node.pieces.flatMap Piece.text := by
  induction node with
  | number value => rfl
  | reference identifier =>
      simp [respelled, pieces, Piece.text, Token.lexeme_respelled]
  | parenthesized inner ih =>
      simp [respelled, pieces, Piece.text, ih h]
  | binary left operator right ihLeft ihRight =>
      simp [respelled, pieces, Piece.text, ihLeft h.1, ihRight h.2.2,
        Operator.symbol, Operator.respelled, Token.lexeme_respelled]
  | error span => exact h.elim
  | expressionStatement body _ => exact h.elim
  | assignStatement identifier initializer _ => exact h.elim

theorem StatementSpellable.text_respelled {node : Node}
    (h : node.StatementSpellable) :
    node.respelled.statementPieces.flatMap Piece.text =
      node.statementPieces.flatMap Piece.text := by
  cases node with
  | expressionStatement body =>
      simp [respelled, statementPieces, h.1.text_respelled]
  | assignStatement identifier initializer =>
      simp [respelled, statementPieces, Piece.text, Token.lexeme_respelled,
        h.2.text_respelled]
  | _ => exact h.elim

theorem Reassociated.pieces {node other : Node} (h : Reassociated node other) :
    node.pieces = other.pieces := by
  induction h with
  | refl node => rfl
  | symm _ ih => exact ih.symm
  | trans _ _ ih ihNext => exact ih.trans ihNext
  | rotated first second third operator other => simp [Node.pieces]
  | binary _ operator _ ihLeft ihRight =>
      rw [Node.pieces, Node.pieces, ihLeft, ihRight]
  | parenthesized _ ih => rw [Node.pieces, Node.pieces, ih]
  | expressionStatement _ _ => rfl
  | assignStatement identifier _ _ => rfl

theorem Reassociated.beginsNamed {node other : Node}
    (h : Reassociated node other) : node.beginsNamed = other.beginsNamed := by
  induction h with
  | symm _ ih => exact ih.symm
  | trans _ _ ih ihNext => exact ih.trans ihNext
  | binary _ operator _ ihLeft _ => exact ihLeft
  | _ => rfl

theorem Reassociated.spellable {node other : Node}
    (h : Reassociated node other) : node.Spellable ↔ other.Spellable := by
  induction h with
  | refl node => exact .rfl
  | symm _ ih => exact ih.symm
  | trans _ _ ih ihNext => exact ih.trans ihNext
  | rotated first second third operator other => simp [Spellable, and_assoc]
  | binary _ operator _ ihLeft ihRight => rw [Spellable, Spellable, ihLeft, ihRight]
  | parenthesized _ ih => exact ih
  | expressionStatement _ _ => exact .rfl
  | assignStatement identifier _ _ => exact .rfl

theorem StatementSpellable.regroup {node : Node} (h : node.StatementSpellable) :
    node.regroup.StatementSpellable ∧ node.regroup.sort = node.sort ∧
      node.regroup.statementPieces = node.statementPieces := by
  cases node with
  | expressionStatement body =>
      have hsame := body.regroup_reassociated
      refine ⟨⟨hsame.spellable.mpr h.1, hsame.beginsNamed.trans h.2⟩, rfl, ?_⟩
      change (Node.expressionStatement body.regroup).statementPieces = _
      rw [statementPieces, statementPieces, hsame.pieces]
  | assignStatement identifier initializer =>
      have hsame := initializer.regroup_reassociated
      refine ⟨⟨h.1, hsame.spellable.mpr h.2⟩, rfl, ?_⟩
      change (Node.assignStatement identifier initializer.regroup).statementPieces
        = _
      rw [statementPieces, statementPieces, hsame.pieces]
  | _ => exact h.elim

end Node

theorem sourceText_of_spellable {nodes : List Node}
    (h : ∀ node ∈ nodes, node.StatementSpellable) :
    sourceText nodes = .ok (String.ofList
      ((nodes.flatMap Node.statementPieces).flatMap Piece.text)) := by
  refine sourceText_eq (fun node hnode => (h node hnode).isStatement)
    (List.all_eq_true.mpr fun node hnode => ?_)
  rw [← node.numbersWithinLimit_respelled]
  exact (h node hnode).writable.numbersWithinLimit

theorem sourceText_regrouped {nodes : List Node}
    (h : ∀ node ∈ nodes, node.StatementSpellable) :
    sourceText (nodes.map fun node => node.regroup.respelled) =
      sourceText nodes := by
  have hwritable : ∀ other ∈ nodes.map (fun node => node.regroup.respelled),
      other.StatementWritable :=
    List.forall_mem_map.mpr fun node hnode => (h node hnode).regroup.1.writable
  have htext : ∀ node ∈ nodes,
      node.regroup.respelled.statementPieces.flatMap Piece.text =
        node.statementPieces.flatMap Piece.text := by
    intro node hnode
    obtain ⟨hspellable, -, hpieces⟩ := (h node hnode).regroup
    rw [hspellable.text_respelled, hpieces]
  rw [sourceText_of_writable hwritable, sourceText_of_spellable h, List.flatMap_map,
    List.flatMap_assoc, List.flatMap_assoc, List.flatMap_congr htext]

/-- Spellable statements, however grouped, have a canonical source without
faults.  It is read as the statements regrouped, with the tokens that their
lexemes spell, and grouped statements come back as they are. -/
theorem sourceText_regroups {nodes : List Node}
    (h : ∀ node ∈ nodes, node.StatementSpellable) :
    ∃ out, sourceText nodes = .ok out ∧ (analyze out).diagnostics = [] ∧
      (analyze out).statements.map Node.sort = nodes.map Node.sort ∧
      (analyze out).statements.map Node.unplaced =
        nodes.map (fun node => node.regroup.respelled) ∧
      (∀ node ∈ nodes, ∀ tree,
        tree = node.regroup ↔ tree.Grouped ∧ tree.chain = node.chain) ∧
      ((∀ node ∈ nodes, node.Grouped) →
        (analyze out).statements.map Node.unplaced =
          nodes.map Node.respelled) := by
  have hwritable : ∀ other ∈ nodes.map (fun node => node.regroup.respelled),
      other.StatementWritable :=
    List.forall_mem_map.mpr fun node hnode => (h node hnode).regroup.1.writable
  have hgrouped : ∀ other ∈ nodes.map (fun node => node.regroup.respelled),
      other.Grouped :=
    List.forall_mem_map.mpr fun node _ => node.regroup_grouped.respelled
  obtain ⟨out, hout⟩ : ∃ out, sourceText nodes = .ok out :=
    ⟨_, sourceText_of_spellable h⟩
  obtain ⟨hclean, halike⟩ := analyze_sourceText hwritable hgrouped
    ((sourceText_regrouped h).trans hout)
  have hstatements : (analyze out).statements.map Node.unplaced =
      nodes.map (fun node => node.regroup.respelled) := by
    rw [Node.map_unplaced_of_alike halike, List.map_map]
    exact List.map_congr_left fun node _ => node.regroup.unplaced_respelled
  refine ⟨out, hout, hclean, ?_, hstatements,
    fun node _ tree => Node.eq_regroup_iff, ?_⟩
  · have hsorts := congrArg (List.map Node.sort) hstatements
    simp only [List.map_map, Function.comp_def, Node.sort_unplaced,
      Node.sort_respelled] at hsorts
    rw [hsorts]
    exact List.map_congr_left fun node hnode => (h node hnode).regroup.2.1
  · intro hall
    rw [hstatements]
    exact List.map_congr_left fun node hnode => by
      rw [(hall node hnode).steady.regroup]

def bareMinus : Operator := ⟨.minus, ⟨.endOfText, "-", Span.nowhere, .absent⟩⟩

def leftGrouped : Node :=
  .expressionStatement (.binary (.binary (.number 8) bareMinus (.number 3))
    bareMinus (.number (-2)))

theorem leftGrouped_regroups :
    (∀ node ∈ [leftGrouped], node.StatementSpellable) ∧
      ∃ out, sourceText [leftGrouped] = .ok out ∧
        (analyze out).diagnostics = [] ∧
        (analyze out).statements.map Node.unplaced =
          [.expressionStatement (.binary (.number 8) bareMinus.respelled
            (.binary (.number 3) bareMinus.respelled (.number (-2))))] := by
  have hspellable : ∀ node ∈ [leftGrouped], node.StatementSpellable := by
    rw [List.forall_mem_singleton]
    exact ⟨⟨⟨rfl, rfl, rfl⟩, rfl, rfl⟩, rfl⟩
  obtain ⟨out, hout, hclean, -, hstatements, -⟩ := sourceText_regroups hspellable
  exact ⟨hspellable, out, hout, hclean, hstatements⟩

end ExprLang

import ExprLang.Proofs.Layout.Lines
import ExprLang.Proofs.Tree.Numbers

/-!
# The pieces of canonical source

The canonical source of a tree is written down piece by piece, blanks and
words.  A statement falls into just these pieces again, whatever follows it
(`StatementWritable.pieces`), when the numbers are representable and the names
and operators are lexemes: every word is followed by a delimiter, but for
opening parentheses, which need none.
-/

namespace ExprLang

namespace Node

/-! ## Pieces -/

def pieces : Node → List Piece
  | number value => [.word .integerLiteral (toString value).toList]
  | binary left operator right =>
      left.pieces ++ .blank ' ' ::
        .word operator.token.kind operator.symbol.toList ::
          .blank ' ' :: right.pieces
  | parenthesized inner =>
      .word .leftParen ['('] :: (inner.pieces ++ [.word .rightParen [')']])
  | reference identifier => [.word .identifier identifier.lexeme.toList]
  | error span => [.unknown span.literal.toList]
  | expressionStatement _ => []
  | assignStatement _ _ => []

def statementPieces : Node → List Piece
  | expressionStatement body => body.pieces ++ [.blank '\n']
  | assignStatement identifier initializer =>
      .word .identifier identifier.lexeme.toList :: .blank ' ' ::
        .word .assign [':', '='] :: .blank ' ' ::
          (initializer.pieces ++ [.word .semicolon [';'], .blank '\n'])
  | _ => []

end Node

/-! ## The text of the pieces is what is written -/

theorem Node.flatMap_parts (node : Node) :
    node.parts.flatMap String.toList = node.pieces.flatMap Piece.text := by
  induction node with
  | number value => simp [parts, pieces, Piece.text]
  | reference identifier => simp [parts, pieces, Piece.text]
  | error span => simp [parts, pieces, Piece.text]
  | parenthesized inner ih => simp [parts, pieces, Piece.text, ih]
  | binary left operator right ihLeft ihRight =>
      simp [parts, pieces, Piece.text, ihLeft, ihRight]
  | expressionStatement inner _ => rfl
  | assignStatement identifier initializer _ => rfl

theorem Node.toList_sourceLine {node : Node} (h : node.IsStatement) :
    node.sourceLine.toList ++ ['\n'] =
      node.statementPieces.flatMap Piece.text := by
  rw [sourceLine, String.toList_join]
  cases node with
  | expressionStatement body =>
      simp [statementParts, statementPieces, Piece.text, body.flatMap_parts]
  | assignStatement identifier initializer =>
      simp [statementParts, statementPieces, Piece.text,
        initializer.flatMap_parts]
  | _ => exact h.elim

theorem sourceText_eq {nodes : List Node}
    (h : ∀ node ∈ nodes, node.IsStatement)
    (hwithin : nodes.all Node.numbersWithinLimit = true) :
    sourceText nodes = .ok (String.ofList
      ((nodes.flatMap Node.statementPieces).flatMap Piece.text)) := by
  have hlines : ∀ node ∈ nodes, (node.sourceLine ++ "\n").toList =
      node.statementPieces.flatMap Piece.text := by
    intro node hnode
    rw [String.toList_append]
    exact Node.toList_sourceLine (h node hnode)
  rw [sourceText_eq_lines h, if_pos hwithin, Except.ok.injEq,
    ← String.toList_inj, Text.terminated, String.toList_join, String.toList_ofList, List.map_map,
    List.flatMap_map, List.flatMap_assoc]
  exact List.flatMap_congr hlines

/-! ## Trees that can be written -/

namespace Node

/-- Numbers are representable, and names and operators are lexemes. -/
def Writable : Node → Prop
  | number value => Lexicon.isRepresentable value = true
  | binary left operator right =>
      left.Writable ∧
        (operator.token.IsLexical ∧
          Operator.ofToken? operator.token = some operator) ∧
        right.Writable
  | parenthesized inner => inner.Writable
  | reference identifier =>
      identifier.IsLexical ∧ identifier.kind = .identifier
  | error _ => False
  | expressionStatement _ => False
  | assignStatement _ _ => False

def StatementWritable : Node → Prop
  | expressionStatement body => body.Writable ∧ body.beginsNamed = false
  | assignStatement identifier initializer =>
      (identifier.IsLexical ∧ identifier.kind = .identifier) ∧
        initializer.Writable
  | _ => False

theorem Writable.isExpression {node : Node} (h : node.Writable) :
    node.IsExpression := by
  induction node with
  | number value => trivial
  | reference identifier => trivial
  | error span => exact h.elim
  | parenthesized inner ih => exact ih h
  | binary left operator right ihLeft ihRight =>
      exact ⟨ihLeft h.1, ihRight h.2.2⟩
  | expressionStatement inner _ => exact h.elim
  | assignStatement identifier initializer _ => exact h.elim

theorem StatementWritable.isStatement {node : Node}
    (h : node.StatementWritable) : node.IsStatement := by
  cases node with
  | expressionStatement body => exact h.1.isExpression
  | assignStatement identifier initializer => exact h.2.isExpression
  | _ => exact h.elim

theorem Writable.numbersWithinLimit {node : Node} (h : node.Writable) :
    node.numbersWithinLimit = true := by
  induction node with
  | number value => exact Lexicon.isWithinLimit_of_isRepresentable h
  | reference identifier => rfl
  | error span => rfl
  | parenthesized inner ih => exact ih h
  | binary left operator right ihLeft ihRight =>
      rw [Node.numbersWithinLimit, ihLeft h.1, ihRight h.2.2]
      rfl
  | expressionStatement inner _ => exact h.elim
  | assignStatement identifier initializer _ => exact h.elim

theorem StatementWritable.numbersWithinLimit {node : Node}
    (h : node.StatementWritable) : node.numbersWithinLimit = true := by
  cases node with
  | expressionStatement body => exact h.1.numbersWithinLimit
  | assignStatement identifier initializer => exact h.2.numbersWithinLimit
  | _ => exact h.elim

end Node

theorem sourceText_of_writable {nodes : List Node}
    (h : ∀ node ∈ nodes, node.StatementWritable) :
    sourceText nodes = .ok (String.ofList
      ((nodes.flatMap Node.statementPieces).flatMap Piece.text)) :=
  sourceText_eq (fun node hnode => (h node hnode).isStatement)
    (List.all_eq_true.mpr fun node hnode => (h node hnode).numbersWithinLimit)

namespace Node

def isError : Node → Bool
  | error _ => true
  | _ => false

def ErrorFree (entries : List (Nat × Node)) : Prop :=
  ∀ entry ∈ entries, entry.2.isError = false

theorem MadeOf.writable {node : Node} (h : node.MadeOf Token.IsLexical)
    {depth : Nat} (herror : ErrorFree (node.preorder depth)) :
    node.Writable := by
  induction node generalizing depth with
  | number value =>
      obtain ⟨token, hlexical, hkind, rfl⟩ := h
      exact isRepresentable_of_isLexical hlexical hkind
  | reference identifier => exact h
  | error span => exact absurd (herror _ List.mem_cons_self) (by simp [isError])
  | parenthesized inner ih =>
      exact ih h (List.forall_mem_cons.mp herror).2
  | binary left operator right ihLeft ihRight =>
      obtain ⟨hleft, hright⟩ :=
        List.forall_mem_append.mp (List.forall_mem_cons.mp herror).2
      exact ⟨ihLeft h.1 hleft, h.2.1, ihRight h.2.2 hright⟩
  | expressionStatement inner _ => exact h.elim
  | assignStatement identifier initializer _ => exact h.elim

theorem StatementMadeOf.writable {node : Node}
    (h : node.StatementMadeOf Token.IsLexical) {depth : Nat}
    (herror : ErrorFree (node.preorder depth)) : node.StatementWritable := by
  cases node with
  | expressionStatement body =>
      exact ⟨h.1.writable (List.forall_mem_cons.mp herror).2, h.2⟩
  | assignStatement identifier initializer =>
      exact ⟨h.1, h.2.writable (List.forall_mem_cons.mp herror).2⟩
  | _ => exact h.elim

end Node

/-! ## The pieces are found again -/

namespace Node

open Lexicon

theorem beginsDelimiter_cons {delimiter : Char} (h : delimiter ∈ delimiters)
    (rest : List Char) : BeginsDelimiter (delimiter :: rest) :=
  ⟨delimiter, h, rest, rfl⟩

theorem pieces_of_space (rest : List Char) :
    Piece.pieces (' ' :: rest) = .blank ' ' :: Piece.pieces rest :=
  Piece.pieces_of_blank rest rfl

theorem pieces_of_mark {mark : TokenKind} (h : mark ∈ TokenKind.punctuation)
    {rest : List Char} (hrest : BeginsDelimiter rest) :
    Piece.pieces (mark.name.toList ++ rest) =
      .word mark mark.name.toList :: Piece.pieces rest :=
  (isLexeme_of_punctuation h).pieces_of_delimiter hrest

theorem Writable.pieces {node : Node} (h : node.Writable) {rest : List Char}
    (hrest : BeginsDelimiter rest) :
    Piece.pieces (node.pieces.flatMap Piece.text ++ rest) =
      node.pieces ++ Piece.pieces rest := by
  induction node generalizing rest with
  | number value =>
      simp only [Node.pieces, List.flatMap_cons, Piece.text, List.flatMap_nil,
        List.append_nil, List.singleton_append]
      exact (isLexeme_toString h).pieces_of_delimiter hrest
  | reference identifier =>
      have hlexeme := h.1.lexeme
      rw [h.2] at hlexeme
      simp only [Node.pieces, List.flatMap_cons, Piece.text, List.flatMap_nil,
        List.append_nil, List.singleton_append]
      exact hlexeme.pieces_of_delimiter hrest
  | parenthesized inner ih =>
      have hclosed := ih h (beginsDelimiter_cons (by decide : ')' ∈ delimiters) rest)
      have hmark := pieces_of_mark (by decide : .rightParen ∈ TokenKind.punctuation)
        hrest
      simp only [Node.pieces, List.flatMap_cons, List.flatMap_append, Piece.text,
        List.flatMap_nil, List.append_nil, List.cons_append, List.append_assoc,
        List.nil_append]
      rw [pieces_of_opening, hclosed]
      exact congrArg _ (congrArg _ hmark)
  | binary left operator right ihLeft ihRight =>
      obtain ⟨hleft, ⟨hlexical, -⟩, hright⟩ := h
      have hspaced := beginsDelimiter_cons (by decide : ' ' ∈ delimiters)
      simp only [Node.pieces, Operator.symbol, List.flatMap_cons,
        List.flatMap_append, Piece.text, List.cons_append, List.append_assoc,
        List.nil_append]
      rw [ihLeft hleft (hspaced _), pieces_of_space,
        hlexical.lexeme.pieces_of_delimiter (hspaced _), pieces_of_space,
        ihRight hright hrest]
  | error span => exact h.elim
  | expressionStatement inner _ => exact h.elim
  | assignStatement identifier initializer _ => exact h.elim

theorem pieces_of_lineFeed (rest : List Char) :
    Piece.pieces ('\n' :: rest) = .blank '\n' :: Piece.pieces rest :=
  Piece.pieces_of_blank rest rfl

theorem StatementWritable.pieces {node : Node} (h : node.StatementWritable)
    (rest : List Char) :
    Piece.pieces (node.statementPieces.flatMap Piece.text ++ rest) =
      node.statementPieces ++ Piece.pieces rest := by
  have hended := beginsDelimiter_cons (by decide : '\n' ∈ delimiters) rest
  cases node with
  | expressionStatement body =>
      simp only [statementPieces, List.flatMap_append, List.flatMap_cons,
        List.flatMap_nil, Piece.text, List.append_assoc, List.append_nil,
        List.singleton_append]
      rw [h.1.pieces hended, pieces_of_lineFeed]
  | assignStatement identifier initializer =>
      obtain ⟨⟨hlexical, hkind⟩, hwritable⟩ := h
      have hlexeme := hlexical.lexeme
      rw [hkind] at hlexeme
      have hspaced := beginsDelimiter_cons (by decide : ' ' ∈ delimiters)
      have hclosed := beginsDelimiter_cons (by decide : ';' ∈ delimiters)
        ('\n' :: rest)
      have hsign : ∀ after, Piece.pieces (':' :: '=' :: ' ' :: after) =
          .word .assign [':', '='] :: .blank ' ' :: Piece.pieces after := by
        intro after
        rw [← pieces_of_space]
        exact pieces_of_mark (by decide : .assign ∈ TokenKind.punctuation)
          (hspaced after)
      have hsemicolon : Piece.pieces (';' :: '\n' :: rest) =
          .word .semicolon [';'] :: .blank '\n' :: Piece.pieces rest := by
        rw [← pieces_of_lineFeed]
        exact pieces_of_mark (by decide : .semicolon ∈ TokenKind.punctuation)
          hended
      simp only [statementPieces, List.flatMap_append, List.flatMap_cons,
        List.flatMap_nil, Piece.text, List.append_assoc, List.cons_append,
        List.nil_append, List.append_nil]
      rw [hlexeme.pieces_of_delimiter (hspaced _), pieces_of_space, hsign,
        hwritable.pieces hclosed, hsemicolon]
  | _ => exact h.elim

end Node

end ExprLang

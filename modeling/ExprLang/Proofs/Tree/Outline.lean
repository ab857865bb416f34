import ExprLang.Analysis
import ExprLang.Proofs.Lexicon.CarriageReturns
import ExprLang.Proofs.Text.Joining
import ExprLang.Proofs.Text.Quoted
import ExprLang.Proofs.Tree.Likeness
import ExprLang.Proofs.Tree.Numbers
import ExprLang.Tree.Outline

/-!
# Outlines determine trees

The lines of an outline are told apart by the words they begin with, and from
its first lines on they show where a node ends.  So the lines determine sorts,
nesting, numbers, names, operators and the texts of error nodes, and nothing
else: `Node.gist` keeps just these.
-/

namespace ExprLang

/-! ## What an outline shows -/

def Token.gist (token : Token) : Token :=
  ⟨.identifier, token.lexeme, Span.nowhere, .absent⟩

def Operator.gist (operator : Operator) : Operator :=
  ⟨operator.kind, ⟨.endOfText, "", Span.nowhere, .absent⟩⟩

namespace Node

/-- The tree without spans, without the details of tokens besides names, and
without the lexemes of operators. -/
def gist : Node → Node
  | expressionStatement body => .expressionStatement body.gist
  | assignStatement identifier initializer =>
      .assignStatement identifier.gist initializer.gist
  | number value => .number value
  | binary left operator right =>
      .binary left.gist operator.gist right.gist
  | parenthesized inner => .parenthesized inner.gist
  | reference identifier => .reference identifier.gist
  | error span => .error (Span.covering 0 span.literal.toList)

/-- No name holds a line feed. -/
def NamesUnbroken : Node → Prop
  | expressionStatement body => body.NamesUnbroken
  | assignStatement identifier initializer =>
      '\n' ∉ identifier.lexeme.toList ∧ initializer.NamesUnbroken
  | number _ => True
  | binary left _ right => left.NamesUnbroken ∧ right.NamesUnbroken
  | parenthesized inner => inner.NamesUnbroken
  | reference identifier => '\n' ∉ identifier.lexeme.toList
  | error _ => True

/-! ## Lines -/

def caption : Node → String
  | number value => "Number: " ++ toString value
  | binary _ _ _ => "Binary Expression:"
  | parenthesized _ => "Parenthesized Expression:"
  | reference identifier => "Variable: " ++ identifier.lexeme
  | error span => "Error: " ++ Text.quoted span.literal
  | expressionStatement _ => ""
  | assignStatement _ _ => ""

end Node

def indented (indent : Int) (line : String) : String :=
  Text.run ' ' indent ++ line

namespace Node

def lines (indent : Int) (node : Node) : List String :=
  let inside := indent + Outline.levelIndent
  indented indent "Expression:" :: indented inside node.caption ::
    match node with
    | binary left operator right =>
        indented (inside + Outline.levelIndent)
            ("Operator: " ++ operator.kind.name) ::
          (left.lines (inside + Outline.levelIndent) ++
            right.lines (inside + Outline.levelIndent))
    | parenthesized inner => inner.lines (inside + Outline.levelIndent)
    | _ => []

def operandLines (indent : Int) : Node → List String
  | binary left operator right =>
      indented indent ("Operator: " ++ operator.kind.name) ::
        (left.lines indent ++ right.lines indent)
  | parenthesized inner => inner.lines indent
  | _ => []

theorem lines_eq (indent : Int) (node : Node) :
    node.lines indent =
      indented indent "Expression:" ::
        indented (indent + Outline.levelIndent) node.caption ::
          node.operandLines
            (indent + Outline.levelIndent + Outline.levelIndent) := by
  cases node <;> rfl

def statementLines (indent : Int) (node : Node) : List String :=
  let inside := indent + Outline.levelIndent
  indented indent "Statement:" ::
    match node with
    | expressionStatement body => body.lines inside
    | assignStatement identifier initializer =>
        indented inside "Assign Statement:" ::
          indented (inside + Outline.levelIndent)
              ("Identifier: " ++ identifier.lexeme) ::
            initializer.lines (inside + Outline.levelIndent)
    | _ => []

end Node

namespace Outline

section

variable (outline : Outline) (line : String)

@[simp] theorem indent_write : (outline.write line).indent = outline.indent := rfl

@[simp] theorem lines_write :
    (outline.write line).lines =
      outline.lines ++ [indented outline.indent line] := rfl

@[simp] theorem indent_deeper :
    outline.deeper.indent = outline.indent + levelIndent := rfl

@[simp] theorem lines_deeper : outline.deeper.lines = outline.lines := rfl

@[simp] theorem indent_shallower :
    outline.shallower.indent = outline.indent - levelIndent := rfl

@[simp] theorem lines_shallower : outline.shallower.lines = outline.lines := rfl

end

theorem ok_eq_ok {outline : Outline} {indent : Int} {lines : List String}
    (hindent : outline.indent = indent) (hlines : outline.lines = lines) :
    (.ok outline : Except Unshown Outline) = .ok ⟨indent, lines⟩ := by
  rw [← hindent, ← hlines]

theorem expression_eq {node : Node} (h : node.IsExpression)
    (outline : Outline) :
    outline.expression node =
      if node.numbersWithinLimit then
        .ok ⟨outline.indent, outline.lines ++ node.lines outline.indent⟩
      else .error .tooLong := by
  induction node generalizing outline with
  | number value =>
      rw [expression, Node.numbersWithinLimit]
      cases hvalue : Number.isWithinLimit value with
      | true =>
          rw [numberText_of_within hvalue]
          exact ok_eq_ok (by simp) (by simp [Node.lines, Node.caption])
      | false => rw [numberText_of_long hvalue]; rfl
  | reference _ | error _ =>
      rw [expression]
      exact ok_eq_ok (by simp) (by simp [Node.lines, Node.caption])
  | parenthesized inner ih =>
      rw [expression, Node.numbersWithinLimit]
      simp only [ih h]
      cases inner.numbersWithinLimit with
      | true => exact ok_eq_ok (by simp) (by simp [Node.lines, Node.caption])
      | false => rfl
  | binary left operator right ihLeft ihRight =>
      rw [expression, Node.numbersWithinLimit]
      simp only [ihLeft h.1]
      cases left.numbersWithinLimit with
      | false => rfl
      | true =>
          simp only [ihRight h.2]
          cases right.numbersWithinLimit with
          | false => rfl
          | true => exact ok_eq_ok (by simp) (by simp [Node.lines, Node.caption])
  | expressionStatement body _ => exact h.elim
  | assignStatement identifier initializer _ => exact h.elim

theorem statement_eq {node : Node} (h : node.IsStatement) (outline : Outline) :
    outline.statement node =
      if node.numbersWithinLimit then
        .ok ⟨outline.indent,
          outline.lines ++ node.statementLines outline.indent⟩
      else .error .tooLong := by
  cases node with
  | expressionStatement body =>
      have hbody : body.IsExpression := h
      rw [statement, Node.numbersWithinLimit]
      simp only [expression_eq hbody]
      cases body.numbersWithinLimit with
      | true => exact ok_eq_ok (by simp) (by simp [Node.statementLines])
      | false => rfl
  | assignStatement identifier initializer =>
      have hinitializer : initializer.IsExpression := h
      rw [statement, Node.numbersWithinLimit]
      simp only [expression_eq hinitializer]
      cases initializer.numbersWithinLimit with
      | true => exact ok_eq_ok (by simp) (by simp [Node.statementLines])
      | false => rfl
  | _ => exact h.elim

theorem statements_eq {nodes : List Node} (h : ∀ node ∈ nodes, node.IsStatement)
    (outline : Outline) :
    outline.statements nodes =
      if nodes.all Node.numbersWithinLimit then
        .ok ⟨outline.indent, outline.lines ++
          nodes.flatMap (Node.statementLines outline.indent)⟩
      else .error .tooLong := by
  induction nodes generalizing outline with
  | nil => simp [statements, pure, Except.pure]
  | cons node nodes ih =>
      obtain ⟨hnode, hnodes⟩ := List.forall_mem_cons.mp h
      rw [statements, statement_eq hnode, List.all_cons]
      cases node.numbersWithinLimit with
      | true =>
          refine (ih hnodes _).trans ?_
          simp
      | false => rfl

end Outline

theorem outlineText_eq {nodes : List Node}
    (h : ∀ node ∈ nodes, node.IsStatement) :
    outlineText nodes =
      if nodes.all Node.numbersWithinLimit then
        .ok (String.intercalate "\n" (nodes.flatMap (Node.statementLines 0)))
      else .error .tooLong := by
  rw [outlineText, Outline.statements_eq h]
  cases nodes.all Node.numbersWithinLimit <;> rfl

/-! ## The lines show the gist -/

theorem indented_inj {indent : Int} {line other : String} :
    indented indent line = indented indent other ↔ line = other := by
  rw [indented, indented, String.append_right_inj]

theorem OperatorKind.name_inj {kind other : OperatorKind} :
    kind.name = other.name ↔ kind = other := by
  cases kind <;> cases other <;> decide

theorem toString_int_inj {number other : Int} :
    toString number = toString other ↔ number = other := by
  refine ⟨fun h => ?_, congrArg toString⟩
  rw [← Lexicon.signedValue_toString number, h, Lexicon.signedValue_toString]

namespace Node

theorem sort_eq_of_caption {node other : Node} (hnode : node.IsExpression)
    (hother : other.IsExpression) (h : node.caption = other.caption) :
    node.sort = other.sort := by
  cases node <;> cases other <;>
    first
    | rfl
    | exact hnode.elim
    | exact hother.elim
    | simp [caption, ← String.toList_inj] at h

section

variable {node other : Node} {indent : Int} {rest rest' : List String}

theorem agree_of_lines (hnode : node.IsExpression)
    (hother : other.IsExpression)
    (h : node.lines indent ++ rest = other.lines indent ++ rest') :
    node.sort = other.sort ∧ node.caption = other.caption ∧
      node.operandLines
          (indent + Outline.levelIndent + Outline.levelIndent) ++ rest =
        other.operandLines
          (indent + Outline.levelIndent + Outline.levelIndent) ++ rest' := by
  rw [lines_eq, lines_eq] at h
  obtain ⟨hcaption, htail⟩ := List.cons.inj (List.cons.inj h).2
  have hsame := indented_inj.mp hcaption
  exact ⟨sort_eq_of_caption hnode hother hsame, hsame, htail⟩

theorem gist_eq_of_lines (hnode : node.IsExpression)
    (hother : other.IsExpression)
    (h : node.lines indent ++ rest = other.lines indent ++ rest') :
    node.gist = other.gist ∧ rest = rest' := by
  -- What follows the lines of an operand begins with those of the next one, so
  -- the lines must show where they end.
  induction node generalizing other indent rest rest' with
  | number value =>
      obtain ⟨hsort, hcaption, htail⟩ := agree_of_lines hnode hother h
      cases other with
      | number found =>
          have hvalue := (String.append_right_inj _).mp hcaption
          exact ⟨congrArg number (toString_int_inj.mp hvalue), htail⟩
      | _ => simp [sort] at hsort
  | reference identifier =>
      obtain ⟨hsort, hcaption, htail⟩ := agree_of_lines hnode hother h
      cases other with
      | reference found =>
          have hname : identifier.lexeme = found.lexeme :=
            (String.append_right_inj _).mp hcaption
          refine ⟨?_, htail⟩
          rw [gist, gist, Token.gist, Token.gist, hname]
      | _ => simp [sort] at hsort
  | error span =>
      obtain ⟨hsort, hcaption, htail⟩ := agree_of_lines hnode hother h
      cases other with
      | error found =>
          have hliteral : span.literal = found.literal :=
            Text.quoted_injective ((String.append_right_inj _).mp hcaption)
          refine ⟨?_, htail⟩
          rw [gist, gist, hliteral]
      | _ => simp [sort] at hsort
  | parenthesized inner ih =>
      obtain ⟨hsort, -, htail⟩ := agree_of_lines hnode hother h
      cases other with
      | parenthesized found =>
          have hfound : found.IsExpression := hother
          obtain ⟨hgist, hrest⟩ := ih hnode hfound htail
          exact ⟨congrArg parenthesized hgist, hrest⟩
      | _ => simp [sort] at hsort
  | binary left operator right ihLeft ihRight =>
      obtain ⟨hsort, -, htail⟩ := agree_of_lines hnode hother h
      cases other with
      | binary left' operator' right' =>
          obtain ⟨hoperator, hoperands⟩ := List.cons.inj htail
          rw [List.append_eq, List.append_eq, List.append_assoc,
            List.append_assoc] at hoperands
          obtain ⟨hleft, hright⟩ := ihLeft hnode.1 hother.1 hoperands
          obtain ⟨hrightGist, hrest⟩ := ihRight hnode.2 hother.2 hright
          have hkind := OperatorKind.name_inj.mp
            ((String.append_right_inj _).mp (indented_inj.mp hoperator))
          refine ⟨?_, hrest⟩
          rw [gist, gist, hleft, hrightGist, Operator.gist, Operator.gist, hkind]
      | _ => simp [sort] at hsort
  | expressionStatement body _ => exact hnode.elim
  | assignStatement identifier initializer _ => exact hnode.elim

theorem assign_ne_lines {body : Node} {label : String}
    (h : body.lines indent ++ rest =
      indented indent "Assign Statement:" :: label :: rest') : False := by
  rw [lines_eq] at h
  have hheading := indented_inj.mp (List.cons.inj h).1
  exact absurd hheading (by decide)

theorem gist_eq_of_statementLines (hnode : node.IsStatement)
    (hother : other.IsStatement)
    (h : node.statementLines indent ++ rest =
      other.statementLines indent ++ rest') :
    node.gist = other.gist ∧ rest = rest' := by
  have htail := (List.cons.inj h).2
  cases node with
  | expressionStatement body =>
      have hbody : body.IsExpression := hnode
      cases other with
      | expressionStatement found =>
          have hfound : found.IsExpression := hother
          obtain ⟨hgist, hrest⟩ := gist_eq_of_lines hbody hfound htail
          exact ⟨congrArg expressionStatement hgist, hrest⟩
      | assignStatement identifier initializer => exact (assign_ne_lines htail).elim
      | _ => exact hother.elim
  | assignStatement identifier initializer =>
      have hinitializer : initializer.IsExpression := hnode
      cases other with
      | expressionStatement found => exact (assign_ne_lines htail.symm).elim
      | assignStatement target found =>
          have hfound : found.IsExpression := hother
          obtain ⟨hlabel, hlines⟩ := List.cons.inj (List.cons.inj htail).2
          obtain ⟨hgist, hrest⟩ := gist_eq_of_lines hinitializer hfound hlines
          have hname : identifier.lexeme = target.lexeme :=
            (String.append_right_inj _).mp (indented_inj.mp hlabel)
          refine ⟨?_, hrest⟩
          rw [gist, gist, hgist, Token.gist, Token.gist, hname]
      | _ => exact hother.elim
  | _ => exact hnode.elim

end

theorem gist_eq_of_all_lines {nodes others : List Node} {indent : Int}
    (hnodes : ∀ node ∈ nodes, node.IsStatement)
    (hothers : ∀ other ∈ others, other.IsStatement)
    (h : nodes.flatMap (statementLines indent) =
      others.flatMap (statementLines indent)) :
    nodes.map gist = others.map gist := by
  induction nodes generalizing others with
  | nil =>
      cases others with
      | nil => rfl
      | cons other others => cases h
  | cons node nodes ih =>
      cases others with
      | nil => cases h
      | cons other others =>
          obtain ⟨hnode, hrestNodes⟩ := List.forall_mem_cons.mp hnodes
          obtain ⟨hother, hrestOthers⟩ := List.forall_mem_cons.mp hothers
          rw [List.flatMap_cons, List.flatMap_cons] at h
          obtain ⟨hgist, hrest⟩ := gist_eq_of_statementLines hnode hother h
          rw [List.map_cons, List.map_cons, hgist,
            ih hrestNodes hrestOthers hrest]

/-! ## The gist shows in the lines -/

theorem lines_gist (indent : Int) (node : Node) :
    node.gist.lines indent = node.lines indent := by
  induction node generalizing indent with
  | parenthesized inner ih => simp [gist, lines, caption, ih]
  | binary left operator right ihLeft ihRight =>
      simp [gist, lines, caption, Operator.gist, ihLeft, ihRight]
  | error span => simp [gist, lines, caption, Span.covering]
  | _ => rfl

@[simp] theorem numbersWithinLimit_gist (node : Node) :
    node.gist.numbersWithinLimit = node.numbersWithinLimit := by
  induction node with
  | binary left operator right ihLeft ihRight =>
      rw [gist, numbersWithinLimit, ihLeft, ihRight, numbersWithinLimit]
  | parenthesized inner ih => exact ih
  | expressionStatement body ih => exact ih
  | assignStatement identifier initializer ih => exact ih
  | _ => rfl

theorem statementLines_gist (indent : Int) (node : Node) :
    node.gist.statementLines indent = node.statementLines indent := by
  cases node with
  | expressionStatement body => simp [gist, statementLines, lines_gist]
  | assignStatement identifier initializer =>
      simp [gist, statementLines, lines_gist, Token.gist]
  | _ => rfl

/-! ## No line holds a line feed -/

theorem indented_unbroken {indent : Int} {line : String}
    (h : '\n' ∉ line.toList) : '\n' ∉ (indented indent line).toList := by
  simp [indented, Text.run, h, List.mem_replicate]

theorem caption_unbroken {node : Node} (h : node.NamesUnbroken) :
    '\n' ∉ node.caption.toList := by
  cases node with
  | number value => simpa [caption] using toString_unbroken value
  | reference identifier =>
      have hname : '\n' ∉ identifier.lexeme.toList := h
      simp [caption, hname]
  | error span => simp [caption, Text.quoted_unbroken]
  | _ => simp [caption]

theorem lines_unbroken {node : Node} (h : node.NamesUnbroken) (indent : Int) :
    ∀ line ∈ node.lines indent, '\n' ∉ line.toList := by
  have hname : ∀ kind : OperatorKind,
      '\n' ∉ ("Operator: " ++ kind.name).toList := by
    intro kind
    cases kind <;> decide
  have hheading : ∀ indent, '\n' ∉ (indented indent "Expression:").toList :=
    fun _ => indented_unbroken (by decide)
  induction node generalizing indent with
  | binary left operator right ihLeft ihRight =>
      rw [lines_eq, operandLines, List.forall_mem_cons, List.forall_mem_cons,
        List.forall_mem_cons, List.forall_mem_append]
      exact ⟨hheading _, indented_unbroken (caption_unbroken h),
        indented_unbroken (hname _), ihLeft h.1 _, ihRight h.2 _⟩
  | parenthesized inner ih =>
      rw [lines_eq, operandLines, List.forall_mem_cons, List.forall_mem_cons]
      exact ⟨hheading _, indented_unbroken (caption_unbroken h), ih h _⟩
  | _ =>
      exact List.forall_mem_cons.mpr ⟨hheading _,
        List.forall_mem_singleton.mpr (indented_unbroken (caption_unbroken h))⟩

theorem statementLines_unbroken {node : Node} (h : node.NamesUnbroken)
    (indent : Int) : ∀ line ∈ node.statementLines indent, '\n' ∉ line.toList := by
  have hheading : '\n' ∉ (indented indent "Statement:").toList :=
    indented_unbroken (by decide)
  cases node with
  | expressionStatement body =>
      have hbody : body.NamesUnbroken := h
      exact List.forall_mem_cons.mpr ⟨hheading, lines_unbroken hbody _⟩
  | assignStatement identifier initializer =>
      have hname : '\n' ∉ ("Identifier: " ++ identifier.lexeme).toList := by
        simp [h.1]
      simp only [statementLines, List.forall_mem_cons]
      exact ⟨hheading, indented_unbroken (by decide), indented_unbroken hname,
        lines_unbroken h.2 _⟩
  | _ => exact List.forall_mem_singleton.mpr hheading

theorem all_lines_unbroken {nodes : List Node}
    (h : ∀ node ∈ nodes, node.NamesUnbroken) :
    ∀ line ∈ nodes.flatMap (statementLines 0), '\n' ∉ line.toList := by
  intro line hline
  obtain ⟨node, hnode, hmem⟩ := List.mem_flatMap.mp hline
  exact statementLines_unbroken (h node hnode) 0 line hmem

theorem all_lines_ne (nodes : List Node) :
    nodes.flatMap (statementLines 0) ≠ [""] := by
  cases nodes with
  | nil => simp
  | cons node nodes =>
      intro h
      exact absurd (List.cons.inj h).1 (by decide)

/-! ## Trees that are read -/

theorem MadeOf.namesUnbroken {node : Node} (h : node.MadeOf Token.IsLexical) :
    node.NamesUnbroken := by
  induction node with
  | reference identifier => exact h.1.unbroken (by simp [h.2])
  | binary left operator right ihLeft ihRight => exact ⟨ihLeft h.1, ihRight h.2.2⟩
  | parenthesized inner ih => exact ih h
  | number value => trivial
  | error span => trivial
  | expressionStatement body _ => exact h.elim
  | assignStatement identifier initializer _ => exact h.elim

theorem StatementMadeOf.namesUnbroken {node : Node}
    (h : node.StatementMadeOf Token.IsLexical) : node.NamesUnbroken := by
  cases node with
  | expressionStatement body => exact h.1.namesUnbroken
  | assignStatement identifier initializer =>
      exact ⟨h.1.1.unbroken (by simp [h.1.2]), h.2.namesUnbroken⟩
  | _ => exact h.elim

end Node

theorem outlineText_isOk_iff {nodes : List Node}
    (h : ∀ node ∈ nodes, node.IsStatement) :
    (∃ text, outlineText nodes = .ok text) ↔
      ∀ node ∈ nodes, node.numbersWithinLimit = true := by
  rw [outlineText_eq h, ← List.all_eq_true]
  cases nodes.all Node.numbersWithinLimit <;> simp

theorem outlineText_eq_of_gist {nodes others : List Node}
    (hnodes : ∀ node ∈ nodes, node.IsStatement)
    (hothers : ∀ other ∈ others, other.IsStatement)
    (h : nodes.map Node.gist = others.map Node.gist) :
    outlineText nodes = outlineText others := by
  have hlines : ∀ nodes : List Node,
      (nodes.map Node.gist).flatMap (Node.statementLines 0) =
        nodes.flatMap (Node.statementLines 0) := by
    intro nodes
    rw [List.flatMap_map]
    exact List.flatMap_congr fun node _ => node.statementLines_gist 0
  have hwithin : ∀ nodes : List Node,
      (nodes.map Node.gist).all Node.numbersWithinLimit =
        nodes.all Node.numbersWithinLimit := by
    intro nodes
    simp [List.all_map, Function.comp_def]
  rw [outlineText_eq hnodes, outlineText_eq hothers, ← hlines nodes,
    ← hwithin nodes, h, hlines others, hwithin others]

/-- Well-formed statements, all those that are read from a source among them,
have an outline if their numbers can be written.  Provided that no name holds a
line feed, it determines the statements up to their gist: sorts and nesting,
numbers, names, kinds of operators and texts of error nodes.  It shows nothing
else. -/
theorem outlineText_eq_iff {nodes others : List Node}
    (hnodes : ∀ node ∈ nodes, node.IsStatement ∧ node.NamesUnbroken)
    (hothers : ∀ other ∈ others, other.IsStatement ∧ other.NamesUnbroken) :
    ((∃ text, outlineText nodes = .ok text) ↔
        ∀ node ∈ nodes, node.numbersWithinLimit = true) ∧
      (∀ text, outlineText nodes = .ok text →
        (outlineText others = .ok text ↔
          nodes.map Node.gist = others.map Node.gist)) ∧
      ∀ source, ∀ node ∈ (analyze source).statements,
        node.IsStatement ∧ node.NamesUnbroken ∧
          node.numbersWithinLimit = true := by
  have hstatements := fun node hmem => (hnodes node hmem).1
  have hotherStatements := fun other hmem => (hothers other hmem).1
  refine ⟨outlineText_isOk_iff hstatements, ?_, ?_⟩
  · intro text htext
    constructor
    · intro hother
      have hwithin := List.all_eq_true.mpr
        ((outlineText_isOk_iff hstatements).mp ⟨text, htext⟩)
      have hotherWithin := List.all_eq_true.mpr
        ((outlineText_isOk_iff hotherStatements).mp ⟨text, hother⟩)
      rw [outlineText_eq hstatements, if_pos hwithin] at htext
      rw [outlineText_eq hotherStatements, if_pos hotherWithin] at hother
      exact Node.gist_eq_of_all_lines hstatements hotherStatements
        (Text.joined_injective (Node.all_lines_unbroken fun node hmem =>
            (hnodes node hmem).2)
          (Node.all_lines_unbroken fun other hmem => (hothers other hmem).2)
          (Node.all_lines_ne nodes) (Node.all_lines_ne others)
          (Except.ok.inj (htext.trans hother.symm)))
    · intro hgist
      rw [← htext]
      exact (outlineText_eq_of_gist hstatements hotherStatements hgist).symm
  · intro source node hmem
    have hmade := Reading.statements_madeOf (tokenize_isLexical source) node hmem
    exact ⟨hmade.isStatement, hmade.namesUnbroken, hmade.numbersWithinLimit⟩

def strayQuote (place : Nat) (symbol : String) : Node :=
  .expressionStatement
    (.binary (.reference ⟨.identifier, "x", Span.covering place ['x'], .absent⟩)
      ⟨.plus, ⟨.plus, symbol, Span.covering place symbol.toList, .absent⟩⟩
      (.error (Span.covering place ['\x27', '\n'])))

theorem strayQuote_outline :
    (∀ node ∈ [strayQuote 0 "+"], node.IsStatement ∧ node.NamesUnbroken) ∧
      (∀ node ∈ [strayQuote 7 "plus"], node.IsStatement ∧ node.NamesUnbroken) ∧
      ∃ text, outlineText [strayQuote 0 "+"] = .ok text ∧
        outlineText [strayQuote 7 "plus"] = .ok text := by
  have hwell : ∀ place symbol, ∀ node ∈ [strayQuote place symbol],
      node.IsStatement ∧ node.NamesUnbroken := by
    intro place symbol
    rw [List.forall_mem_singleton]
    have hname : '\n' ∉ "x".toList := by decide
    exact ⟨⟨trivial, trivial⟩, hname, trivial⟩
  have hgist : [strayQuote 0 "+"].map Node.gist =
      [strayQuote 7 "plus"].map Node.gist := rfl
  obtain ⟨hshown, hsame, -⟩ := outlineText_eq_iff (hwell 0 "+") (hwell 7 "plus")
  obtain ⟨text, htext⟩ := hshown.mpr (List.forall_mem_singleton.mpr rfl)
  exact ⟨hwell 0 "+", hwell 7 "plus", text, htext, (hsame text htext).mpr hgist⟩

end ExprLang

import ExprLang.Proofs.Layout.Lines
import ExprLang.Proofs.Tree.Outline
import ExprLang.Reading.Session

/-!
# Trees shown one after another

One printer and one formatter may show several trees in turn.  Visiting trees
in turn is visiting all their statements in turn, and every statement leaves the
indent of the printer as it was and begins the parts of the formatter anew.  So
the lines of a tree do not depend on the trees before it: in an outline they
stand as far to the right as their levels and the indent say.
-/

namespace ExprLang

/-! ## Levels of outlines -/

/-- A line of an outline before it is indented, with the level at which it
stands below the statements.  It has no space of its own at its head. -/
structure Outline.Row where
  level : Nat
  text : String
  flush : text.toList.head? ≠ some ' '
  deriving DecidableEq

def Outline.Row.shown (indent : Int) (row : Row) : String :=
  indented (indent + levelIndent * row.level) row.text

def leadingSpaces (line : String) : Nat :=
  (line.toList.takeWhile (· = ' ')).length

theorem Outline.Row.leadingSpaces_shown (row : Row) (indent : Int) :
    (leadingSpaces (row.shown indent) : Int) =
      max 0 (indent + 2 * row.level) := by
  have hnone : row.text.toList.takeWhile (· = ' ') = [] := by
    have hflush := row.flush
    cases htext : row.text.toList with
    | nil => rfl
    | cons first rest =>
        rw [htext, List.head?_cons, Ne, Option.some.injEq] at hflush
        exact List.takeWhile_cons_of_neg (by simpa using hflush)
  have hspaces : ∀ count : Nat, ∀ character ∈ List.replicate count ' ',
      decide (character = ' ') = true := by
    intro count character hmem
    rw [List.eq_of_mem_replicate hmem]
    rfl
  rw [leadingSpaces, shown, indented, String.toList_append, Text.run,
    String.toList_ofList, List.takeWhile_append_of_pos (hspaces _), hnone,
    List.append_nil, List.length_replicate, Int.ofNat_toNat, max_comm]
  rfl

namespace Node

theorem caption_flush (node : Node) :
    node.caption.toList.head? ≠ some ' ' := by
  cases node <;> simp [caption]

def rows (level : Nat) (node : Node) : List Outline.Row :=
  ⟨level, "Expression:", by simp⟩ ::
    ⟨level + 1, node.caption, node.caption_flush⟩ ::
      match node with
      | binary left operator right =>
          ⟨level + 2, "Operator: " ++ operator.kind.name, by simp⟩ ::
            (left.rows (level + 2) ++ right.rows (level + 2))
      | parenthesized inner => inner.rows (level + 2)
      | _ => []

def statementRows (node : Node) : List Outline.Row :=
  ⟨0, "Statement:", by simp⟩ ::
    match node with
    | expressionStatement body => body.rows 1
    | assignStatement identifier initializer =>
        ⟨1, "Assign Statement:", by simp⟩ ::
          ⟨2, "Identifier: " ++ identifier.lexeme, by simp⟩ ::
            initializer.rows 2
    | _ => []

theorem level_succ (indent : Int) (level : Nat) :
    indent + Outline.levelIndent * level + Outline.levelIndent =
      indent + Outline.levelIndent * (level + 1 : Nat) := by
  rw [Int.natCast_succ, Int.mul_add, Int.mul_one, Int.add_assoc]

theorem lines_eq_rows (indent : Int) (level : Nat) (node : Node) :
    node.lines (indent + Outline.levelIndent * level) =
      (node.rows level).map (Outline.Row.shown indent) := by
  -- The level is free, since operands stand two levels below the heading.
  induction node generalizing level with
  | binary left operator right ihLeft ihRight =>
      simp only [lines, rows, level_succ, ihLeft, ihRight, List.map_cons,
        List.map_append]
      rfl
  | parenthesized inner ih =>
      simp only [lines, rows, level_succ, ih, List.map_cons]
      rfl
  | _ =>
      simp only [lines, rows, level_succ]
      rfl

theorem statementLines_eq_rows (indent : Int) (node : Node) :
    node.statementLines indent =
      node.statementRows.map (Outline.Row.shown indent) := by
  have hstart : indent = indent + Outline.levelIndent * (0 : Nat) := by simp
  cases node with
  | expressionStatement body =>
      rw [hstart, statementLines]
      simp only [level_succ, lines_eq_rows]
      simp [statementRows, Outline.Row.shown]
  | assignStatement identifier initializer =>
      rw [hstart, statementLines]
      simp only [level_succ, lines_eq_rows]
      simp [statementRows, Outline.Row.shown]
  | _ => simp [statementLines, statementRows, Outline.Row.shown]

/-- A statement of which all numbers can be written. -/
def Showable (node : Node) : Prop :=
  node.IsStatement ∧ node.numbersWithinLimit = true

theorem StatementMadeOf.showable {node : Node}
    (h : node.StatementMadeOf Token.IsLexical) : node.Showable :=
  ⟨h.isStatement, h.numbersWithinLimit⟩

section

variable {nodes : List Node} (h : ∀ node ∈ nodes, node.Showable)

include h

theorem isStatement_of_showable : ∀ node ∈ nodes, node.IsStatement :=
  fun node hnode => (h node hnode).1

theorem all_withinLimit_of_showable :
    nodes.all numbersWithinLimit = true :=
  List.all_eq_true.mpr fun node hnode => (h node hnode).2

end

end Node

/-! ## Visits in turn -/

theorem foldlM_visits {σ α ε : Type} {visit : σ → α → Except ε σ}
    {visits : σ → List α → Except ε σ}
    (hnil : ∀ state, visits state [] = pure state)
    (hcons : ∀ state first others, visits state (first :: others) =
      visit state first >>= fun next => visits next others)
    (trees : List (List α)) (state : σ) :
    trees.foldlM visits state = visits state trees.flatten := by
  have happend : ∀ first second state, visits state (first ++ second) =
      visits state first >>= fun next => visits next second := by
    intro first second
    induction first with
    | nil => intro state; rw [hnil, pure_bind, List.nil_append]
    | cons node nodes ih =>
        intro state
        rw [List.cons_append, hcons, hcons, bind_assoc]
        simp only [ih]
  induction trees generalizing state with
  | nil => exact (hnil state).symm
  | cons tree trees ih =>
      rw [List.foldlM_cons, List.flatten_cons, happend]
      simp only [ih]

theorem Outline.foldlM_statements (trees : List (List Node))
    (outline : Outline) :
    trees.foldlM Outline.statements outline =
      outline.statements trees.flatten :=
  foldlM_visits (fun _ => rfl) (fun _ _ _ => rfl) trees outline

theorem Layout.foldlM_statements (trees : List (List Node)) (layout : Layout) :
    trees.foldlM Layout.statements layout = layout.statements trees.flatten :=
  foldlM_visits (fun _ => rfl) (fun _ _ _ => rfl) trees layout

theorem Outline.statements_eq_rows {nodes : List Node}
    (h : ∀ node ∈ nodes, node.Showable) (outline : Outline) :
    outline.statements nodes = .ok ⟨outline.indent, outline.lines ++
      (nodes.flatMap Node.statementRows).map (Row.shown outline.indent)⟩ := by
  rw [statements_eq (Node.isStatement_of_showable h),
    if_pos (Node.all_withinLimit_of_showable h), List.map_flatMap,
    List.flatMap_congr fun node _ =>
      node.statementLines_eq_rows outline.indent]

theorem Layout.statements_eq_lines {nodes : List Node}
    (h : ∀ node ∈ nodes, node.Showable) (layout : Layout) :
    layout.statements nodes = .ok ⟨layout.lines ++ nodes.map Node.sourceLine,
      nodes.foldl (fun _ node => node.statementParts) layout.parts⟩ := by
  rw [statements_eq (Node.isStatement_of_showable h),
    if_pos (Node.all_withinLimit_of_showable h)]

theorem Layout.foldl_parts {nodes : List Node} {last : Node}
    (h : nodes.getLast? = some last) (parts : List String) :
    nodes.foldl (fun _ node => node.statementParts) parts =
      last.statementParts := by
  obtain ⟨before, rfl⟩ := List.getLast?_eq_some_iff.mp h
  rw [List.foldl_append]
  rfl

/-! ## What a tree adds -/

structure Outline.Continues (indent : Int) (tree : List Node)
    (before after : Outline) : Prop where
  visited : before.statements tree = .ok after
  indent_before : before.indent = indent
  indent_after : after.indent = indent
  lines : after.lines = before.lines ++
    (tree.flatMap Node.statementRows).map (Row.shown indent)

structure Layout.Continues (earlier : List (List Node)) (tree : List Node)
    (before after : Layout) : Prop where
  visited : before.statements tree = .ok after
  lines : after.lines = before.lines ++ tree.map Node.sourceLine
  all_lines : after.lines =
    (earlier ++ [tree]).flatMap fun shown => shown.map Node.sourceLine
  parts : ∀ last, (earlier ++ [tree]).flatten.getLast? = some last →
    String.join after.parts = last.sourceLine

section

variable {earlier : List (List Node)} {tree : List Node}
  (hearlier : ∀ shown ∈ earlier, ∀ node ∈ shown, node.Showable)
  (htree : ∀ node ∈ tree, node.Showable)

include hearlier

theorem showable_of_mem_flatten :
    ∀ node ∈ earlier.flatten, node.Showable := by
  intro node hnode
  obtain ⟨shown, hshown, hmem⟩ := List.mem_flatten.mp hnode
  exact hearlier shown hshown node hmem

include htree

theorem Outline.exists_continues (indent : Int) :
    ∃ printer reached : Outline,
      earlier.foldlM Outline.statements ⟨indent, []⟩ = .ok printer ∧
      printer.Continues indent tree reached := by
  have hflat := showable_of_mem_flatten hearlier
  have hbefore := (foldlM_statements earlier ⟨indent, []⟩).trans
    (statements_eq_rows hflat _)
  have hafter := statements_eq_rows htree ⟨indent, [] ++
    (earlier.flatten.flatMap Node.statementRows).map (Row.shown indent)⟩
  exact ⟨_, _, hbefore, hafter, rfl, rfl, rfl⟩

theorem Layout.exists_continues :
    ∃ formatter reached : Layout,
      earlier.foldlM Layout.statements .empty = .ok formatter ∧
      formatter.Continues earlier tree reached := by
  have hflat := showable_of_mem_flatten hearlier
  have hbefore := (foldlM_statements earlier .empty).trans
    (statements_eq_lines hflat _)
  have hafter := statements_eq_lines htree ⟨[] ++ earlier.flatten.map Node.sourceLine,
    earlier.flatten.foldl (fun _ node => node.statementParts) []⟩
  refine ⟨_, _, hbefore, hafter, rfl, ?_, ?_⟩
  · simp [List.map_flatten, List.flatMap_def]
  · intro last hlast
    rw [List.flatten_append, List.flatten_singleton] at hlast
    rw [← List.foldl_append, foldl_parts hlast]
    rfl

end

/-- After any trees of well-formed statements with numbers that can be written,
such as are read from every source, a printer shows one more, whole or in part,
by the lines of its outline, indents each by its level beyond its own indent, and
has that indent again.  A formatter adds one line for each statement, and its
parts are left to make up the last. -/
theorem trees_shown_in_turn (indent : Int) {earlier : List (List Node)}
    {tree : List Node}
    (hearlier : ∀ shown ∈ earlier, ∀ node ∈ shown, node.Showable)
    (htree : ∀ node ∈ tree, node.Showable) :
    (∃ printer reached : Outline,
      earlier.foldlM Outline.statements ⟨indent, []⟩ = .ok printer ∧
      printer.Continues indent tree reached) ∧
    (∃ formatter reached : Layout,
      earlier.foldlM Layout.statements .empty = .ok formatter ∧
      formatter.Continues earlier tree reached) ∧
    outlineText tree = .ok ("\n".intercalate
      ((tree.flatMap Node.statementRows).map (Outline.Row.shown 0))) ∧
    sourceText tree = .ok (Text.terminated (tree.map Node.sourceLine)) ∧
    (∀ row ∈ tree.flatMap Node.statementRows, ∀ margin : Int,
      (leadingSpaces (row.shown margin) : Int) =
        max 0 (margin + 2 * row.level)) ∧
    ∀ session : Session, ∃ nodes,
      (session.perform .allStatements).1 = .nodes nodes ∧
        (∀ node ∈ nodes, node.IsStatement) ∧
        ((∃ source, session.tokens = (tokenize source).tokens) →
          ∀ node ∈ nodes, node.Showable) := by
  refine ⟨Outline.exists_continues hearlier htree indent,
    Layout.exists_continues hearlier htree, ?_, ?_, ?_, ?_⟩
  · rw [outlineText, Outline.statements_eq_rows htree]
    rfl
  · rw [sourceText_eq_lines (Node.isStatement_of_showable htree),
      if_pos (Node.all_withinLimit_of_showable htree)]
  · intro row _ margin
    exact row.leadingSpaces_shown margin
  · intro session
    refine ⟨_, rfl, Reading.statements_isStatement _ _, ?_⟩
    rintro ⟨source, htokens⟩ node hnode
    refine (Reading.statements_madeOf (fun token htoken => ?_) node hnode).showable
    rw [Session.remaining, htokens] at htoken
    exact tokenize_isLexical source token (List.mem_of_mem_drop htoken)

theorem difference_shown :
    (∀ shown ∈ [(analyze "x := (1").statements],
        ∀ node ∈ shown, node.Showable) ∧
      (∀ node ∈ (analyze "2 - y").statements, node.Showable) ∧
      (∃ printer reached : Outline,
        [(analyze "x := (1").statements].foldlM Outline.statements ⟨-3, []⟩ =
          .ok printer ∧
        printer.Continues (-3) (analyze "2 - y").statements reached ∧
        reached.lines = printer.lines ++ ["Statement:", "Expression:",
          " Binary Expression:", "   Operator: Minus", "   Expression:",
          "     Number: 2", "   Expression:", "     Variable: y"]) ∧
      ∃ formatter reached : Layout,
        [(analyze "x := (1").statements].foldlM Layout.statements .empty =
          .ok formatter ∧
        formatter.Continues [(analyze "x := (1").statements]
          (analyze "2 - y").statements reached ∧
        reached.lines = ["x := (1);", "2 - y"] := by
  have hwell : ∀ source, ∀ node ∈ (analyze source).statements, node.Showable :=
    fun source node hnode =>
      (Reading.statements_madeOf (tokenize_isLexical source) node hnode).showable
  have hearlier : ∀ shown ∈ [(analyze "x := (1").statements],
      ∀ node ∈ shown, node.Showable :=
    List.forall_mem_singleton.mpr (hwell _)
  obtain ⟨⟨printer, printed, hvisits, hprinter⟩,
    ⟨formatter, formatted, hformats, hformatter⟩, -⟩ :=
      trees_shown_in_turn (-3) hearlier (hwell "2 - y")
  refine ⟨hearlier, hwell _, ⟨printer, printed, hvisits, hprinter, ?_⟩,
    formatter, formatted, hformats, hformatter, ?_⟩
  · rw [hprinter.lines, List.append_right_inj]
    decide +kernel
  · rw [hformatter.all_lines]
    decide +kernel

end ExprLang

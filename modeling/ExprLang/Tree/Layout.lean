import ExprLang.Text.Lines
import ExprLang.Tree

/-!
# Canonical layout

The canonical source of a tree has one statement per line, single spaces around
operators, and a semicolon after assignments only.  Parentheses are written
where the tree has them and nowhere else.  An error node is written as the text
it stands for.  The parts of a line are kept until the next statement begins.
-/

namespace ExprLang

structure Layout where
  lines : List String
  parts : List String
  deriving DecidableEq, Repr

namespace Layout

def empty : Layout := ⟨[], []⟩

def write (layout : Layout) (part : String) : Layout :=
  { layout with parts := layout.parts ++ [part] }

def expression (layout : Layout) : Node → Except Unshown Layout
  | .number number => do
      let digits ← numberText number
      pure (layout.write digits)
  | .binary left operator right => do
      let first ← layout.expression left
      (first.write (" " ++ operator.symbol ++ " ")).expression right
  | .parenthesized inner => do
      let body ← (layout.write "(").expression inner
      pure (body.write ")")
  | .reference identifier => pure (layout.write identifier.lexeme)
  | .error span => pure (layout.write span.literal)
  | .expressionStatement inner =>
      throw (.misplaced (.expression (.expressionStatement inner)))
  | .assignStatement identifier initializer =>
      throw (.misplaced (.expression (.assignStatement identifier initializer)))

def statement (layout : Layout) (node : Node) : Except Unshown Layout := do
  let opened : Layout := { layout with parts := [] }
  let written ←
    match node with
    | .expressionStatement body => opened.expression body
    | .assignStatement identifier initializer => do
        let body ←
          (opened.write (identifier.lexeme ++ " := ")).expression initializer
        pure (body.write ";")
    | other => throw (.misplaced (.statement other))
  pure { written with lines := written.lines ++ [String.join written.parts] }

def statements (layout : Layout) : List Node → Except Unshown Layout
  | [] => pure layout
  | first :: others => do
      let next ← layout.statement first
      next.statements others

end Layout

def sourceText (statements : List Node) : Except Unshown String := do
  let layout ← Layout.empty.statements statements
  pure (Text.terminated layout.lines)

end ExprLang

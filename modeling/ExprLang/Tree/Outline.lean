import ExprLang.Tree

/-!
# Outlines

An outline shows a tree with one line per node and two more spaces of indent
per level.  The printer carries its indent and the lines written so far, so one
printer can show several trees one after another.
-/

namespace ExprLang

structure Outline where
  indent : Int
  lines : List String
  deriving DecidableEq, Repr

namespace Outline

def levelIndent : Int := 2

def write (outline : Outline) (line : String) : Outline :=
  { outline with lines := outline.lines ++ [Text.run ' ' outline.indent ++ line] }

def deeper (outline : Outline) : Outline :=
  { outline with indent := outline.indent + levelIndent }

def shallower (outline : Outline) : Outline :=
  { outline with indent := outline.indent - levelIndent }

def expression (outline : Outline) (node : Node) : Except Unshown Outline := do
  let opened := (outline.write "Expression:").deeper
  let shown ←
    match node with
    | .number number => do
        let digits ← numberText number
        pure (opened.write ("Number: " ++ digits))
    | .binary left operator right => do
        let heading := (opened.write "Binary Expression:").deeper
        let labelled := heading.write ("Operator: " ++ operator.kind.name)
        let first ← expression labelled left
        let second ← expression first right
        pure second.shallower
    | .parenthesized inner => do
        let body ←
          expression (opened.write "Parenthesized Expression:").deeper inner
        pure body.shallower
    | .reference identifier =>
        pure (opened.write ("Variable: " ++ identifier.lexeme))
    | .error span =>
        pure (opened.write ("Error: " ++ Text.quoted span.literal))
    | .expressionStatement inner =>
        throw (.misplaced (.expression (.expressionStatement inner)))
    | .assignStatement identifier initializer =>
        throw
          (.misplaced (.expression (.assignStatement identifier initializer)))
  pure shown.shallower

def statement (outline : Outline) (node : Node) : Except Unshown Outline := do
  let opened := (outline.write "Statement:").deeper
  let shown ←
    match node with
    | .expressionStatement body => expression opened body
    | .assignStatement identifier initializer => do
        let heading := (opened.write "Assign Statement:").deeper
        let labelled := heading.write ("Identifier: " ++ identifier.lexeme)
        let body ← expression labelled initializer
        pure body.shallower
    | other => throw (.misplaced (.statement other))
  pure shown.shallower

def statements (outline : Outline) : List Node → Except Unshown Outline
  | [] => pure outline
  | first :: others => do
      let next ← outline.statement first
      next.statements others

end Outline

def outlineText (statements : List Node) : Except Unshown String := do
  let outline ← Outline.statements ⟨0, []⟩ statements
  pure (String.intercalate "\n" outline.lines)

end ExprLang

import ExprLang.Tree

/-!
# Walks

A walk visits a tree in textual order and enters eleven hooks: for statements
and for expressions a wrapper and a dispatcher, and one hook per sort of node.
Each hook is entered with its node and leads on to what lies below it.  A
pruned hook is entered too, but leads nowhere.
-/

namespace ExprLang

inductive Hook where
  | statement
  | dispatchStatement
  | expressionStatement
  | assignStatement
  | expression
  | dispatchExpression
  | number
  | binary
  | parenthesized
  | reference
  | error
  deriving DecidableEq, Repr

structure Visit where
  hook : Hook
  node : Node
  deriving DecidableEq, Repr

namespace Walk

def enter (pruned : Hook → Bool) (hook : Hook) (node : Node)
    (below : Except Misplaced (List Visit)) : Except Misplaced (List Visit) :=
  if pruned hook then pure [⟨hook, node⟩]
  else do
    let visits ← below
    pure (⟨hook, node⟩ :: visits)

def expression (pruned : Hook → Bool) (node : Node) :
    Except Misplaced (List Visit) :=
  enter pruned .expression node <|
    enter pruned .dispatchExpression node <|
      match node with
      | .number number => enter pruned .number (.number number) (pure [])
      | .binary left operator right =>
          enter pruned .binary (.binary left operator right) do
            let first ← expression pruned left
            let second ← expression pruned right
            pure (first ++ second)
      | .parenthesized inner =>
          enter pruned .parenthesized (.parenthesized inner)
            (expression pruned inner)
      | .reference identifier =>
          enter pruned .reference (.reference identifier) (pure [])
      | .error span => enter pruned .error (.error span) (pure [])
      | .expressionStatement inner =>
          throw (.expression (.expressionStatement inner))
      | .assignStatement identifier initializer =>
          throw (.expression (.assignStatement identifier initializer))

def statement (pruned : Hook → Bool) (node : Node) :
    Except Misplaced (List Visit) :=
  enter pruned .statement node <|
    enter pruned .dispatchStatement node <|
      match node with
      | .expressionStatement body =>
          enter pruned .expressionStatement (.expressionStatement body)
            (expression pruned body)
      | .assignStatement identifier initializer =>
          enter pruned .assignStatement (.assignStatement identifier initializer)
            (expression pruned initializer)
      | other => throw (.statement other)

def statements (pruned : Hook → Bool) :
    List Node → Except Misplaced (List Visit)
  | [] => pure []
  | first :: others => do
      let visits ← statement pruned first
      let following ← statements pruned others
      pure (visits ++ following)

end Walk

end ExprLang

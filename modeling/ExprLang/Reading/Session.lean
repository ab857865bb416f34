import ExprLang.Reading.Statement
import ExprLang.Tokenization

/-!
# Reading sessions

A session reads a token sequence call by call.  Its cursor counts the tokens
taken and goes on counting past the end, where the terminal token is found
again; its bag collects the diagnostics of all calls.
-/

namespace ExprLang

structure Session where
  tokens : TokenSequence
  current : Nat
  bag : Bag
  deriving DecidableEq, Repr

namespace Session

def ofTokens (tokens : TokenSequence) (bag : Bag) : Session := ⟨tokens, 0, bag⟩

def ofSource (source : String) (bag : Bag) : Session :=
  let result := bag.tokenize source
  ofTokens result.1 result.2

def remaining (session : Session) : List Token :=
  session.tokens.body.drop session.current

def next (session : Session) : Token :=
  session.remaining.headD session.tokens.terminal

def atEnd (session : Session) : Bool := session.next.kind = .endOfText

/-- The token at a distance from the cursor.  Distances beyond the end lead to
the terminal token, and places before the start count from the end. -/
def peek? (session : Session) (offset : Int) : Option Token :=
  let place := min (session.current + offset) (session.tokens.length - 1)
  Text.itemAt? session.tokens.toList place

def accept (session : Session) (reading : Reading α) : α × Session :=
  (reading.value,
    { session with
      current := session.current + reading.taken
      bag := session.bag.append (reading.faults.map Fault.diagnostic) })

/-! ## Calls -/

inductive Call where
  | nextStatement
  | iterate
  | allStatements
  | statement
  | assignment
  | expression
  | binary (least : Int)
  | operand
  | operator
  | atEnd
  | peek (offset : Int)
  | consume
  | expect (required : TokenKind)
  deriving DecidableEq, Repr

inductive Answer where
  | statement (result : Option Node)
  | nodes (nodes : List Node)
  | operator (result : Option Operator)
  | flag (value : Bool)
  | token (token : Token)
  | exhausted
  | outOfRange
  deriving DecidableEq, Repr

def answerNode (session : Session) (reading : Reading Node) : Answer × Session :=
  let result := session.accept reading
  (.nodes [result.1], result.2)

def perform (session : Session) (call : Call) : Answer × Session :=
  let terminal := session.tokens.terminal
  let tokens := session.remaining
  match call with
  | .nextStatement =>
      if session.atEnd then (.statement none, session)
      else
        let result := session.accept (Reading.statement terminal tokens)
        (.statement (some result.1), result.2)
  | .iterate =>
      if session.atEnd then (.exhausted, session)
      else session.answerNode (Reading.statement terminal tokens)
  | .allStatements =>
      let result := session.accept (Reading.statements terminal tokens)
      (.nodes result.1, result.2)
  | .statement => session.answerNode (Reading.statement terminal tokens)
  | .assignment => session.answerNode (Reading.assignment terminal tokens)
  | .expression => session.answerNode (Reading.expression terminal 0 tokens)
  | .binary least =>
      session.answerNode (Reading.expression terminal least tokens)
  | .operand => session.answerNode (Reading.operand terminal tokens)
  | .operator => (.operator (Operator.ofToken? session.next), session)
  | .atEnd => (.flag session.atEnd, session)
  | .peek offset =>
      match session.peek? offset with
      | some token => (.token token, session)
      | none => (.outOfRange, session)
  | .consume =>
      (.token session.next, { session with current := session.current + 1 })
  | .expect required =>
      let result := session.accept (Reading.expect terminal required tokens)
      (.token result.1, result.2)

theorem perform_nextStatement (session : Session) :
    session.perform .nextStatement =
      if session.atEnd then (.statement none, session)
      else
        let result := session.accept
          (Reading.statement session.tokens.terminal session.remaining)
        (.statement (some result.1), result.2) := by
  unfold perform
  rfl

theorem perform_iterate (session : Session) :
    session.perform .iterate =
      if session.atEnd then (.exhausted, session)
      else session.answerNode
        (Reading.statement session.tokens.terminal session.remaining) := by
  unfold perform
  rfl

theorem perform_allStatements (session : Session) :
    session.perform .allStatements =
      let result := session.accept
        (Reading.statements session.tokens.terminal session.remaining)
      (.nodes result.1, result.2) := by
  unfold perform
  rfl

theorem perform_peek (session : Session) (offset : Int) :
    session.perform (.peek offset) =
      match session.peek? offset with
      | some token => (.token token, session)
      | none => (.outOfRange, session) := by
  unfold perform
  rfl

def performAll (session : Session) : List Call → List Answer × Session
  | [] => ([], session)
  | call :: calls =>
      let first := session.perform call
      let others := first.2.performAll calls
      (first.1 :: others.1, others.2)

end Session

end ExprLang

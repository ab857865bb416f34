import ExprLang.Token

/-!
# Diagnostics

A diagnostic is a message about a span.  Diagnostics that come from reading a
text have a cause, a `Fault`, which fixes both message and span.  A `Bag` keeps
diagnostics in the order in which they were found.
-/

namespace ExprLang

inductive Severity where
  | error
  | warning
  deriving DecidableEq, Repr

def Severity.name : Severity → String
  | error => "error"
  | warning => "warning"

structure Diagnostic where
  severity : Severity
  message : String
  span : Span
  deriving DecidableEq, Repr

def Diagnostic.describe (diagnostic : Diagnostic) : String :=
  diagnostic.severity.name ++ ": " ++ diagnostic.message ++ " at " ++
    diagnostic.span.bounds

inductive Fault where
  | unknownToken (span : Span)
  | unexpectedToken (required : TokenKind) (found : Token)
  | expectedExpression (found : Token)
  deriving DecidableEq, Repr

namespace Fault

def message : Fault → String
  | unknownToken span => "unknown token <" ++ span.literal ++ ">"
  | unexpectedToken required found =>
      "expected <" ++ required.name ++ ">, found <" ++ found.kind.name ++ ">"
  | expectedExpression found =>
      "expected expression, found <" ++ found.kind.name ++ ">"

def span : Fault → Span
  | unknownToken span => span
  | unexpectedToken _ found => found.span
  | expectedExpression found => found.span

def diagnostic (fault : Fault) : Diagnostic :=
  ⟨.error, fault.message, fault.span⟩

end Fault

structure Bag where
  entries : List Diagnostic
  deriving DecidableEq, Repr

namespace Bag

def empty : Bag := ⟨[]⟩

def add (bag : Bag) (diagnostic : Diagnostic) : Bag :=
  ⟨bag.entries ++ [diagnostic]⟩

def append (bag : Bag) (diagnostics : List Diagnostic) : Bag :=
  ⟨bag.entries ++ diagnostics⟩

def size (bag : Bag) : Nat := bag.entries.length

def isEmpty (bag : Bag) : Bool := bag.entries.isEmpty

def errors (bag : Bag) : List Diagnostic :=
  bag.entries.filter fun diagnostic => diagnostic.severity = .error

def warnings (bag : Bag) : List Diagnostic :=
  bag.entries.filter fun diagnostic => diagnostic.severity = .warning

def hasErrors (bag : Bag) : Bool :=
  bag.entries.any fun diagnostic => diagnostic.severity = .error

def precedes (earlier later : Diagnostic) : Bool :=
  earlier.span.start < later.span.start ||
    (earlier.span.start = later.span.start &&
      earlier.span.stop ≤ later.span.stop)

/-- The diagnostics by place; those with equal spans stay in the order found. -/
def sorted (bag : Bag) : List Diagnostic := bag.entries.mergeSort precedes

end Bag

end ExprLang

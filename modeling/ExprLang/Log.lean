import ExprLang.Analysis

/-!
# The log of an analysis

An analysis leaves a record of what was done: one line for tokenizing, one for
every token that was taken in place of another, and one for the whole.  An
expression that a semicolon cuts short is no such case, since the semicolon
stays.
-/

namespace ExprLang

structure LogRecord where
  origin : String
  message : String
  deriving DecidableEq, Repr

def LogRecord.line (entry : LogRecord) : String :=
  "[DEBUG] " ++ entry.origin ++ ": " ++ entry.message

def Fault.record? : Fault → Option LogRecord
  | .unknownToken _ => none
  | .unexpectedToken required found =>
      some ⟨"translator.parser", "expected " ++ required.name ++ " at " ++
        found.span.bounds ++ ", found " ++ found.kind.name⟩
  | .expectedExpression found =>
      if found.kind = .semicolon then none
      else some ⟨"translator.parser", "expected expression at " ++
        found.span.bounds ++ ", found " ++ found.kind.name⟩

def Analysis.records (analysis : Analysis) : List LogRecord :=
  let tokenizing : LogRecord :=
    ⟨"translator.lexer", "tokenized " ++ toString analysis.source.length ++
      " characters into " ++ toString analysis.tokens.length ++ " tokens (" ++
      toString analysis.lexicalFaults.length ++ " diagnostics)"⟩
  let whole : LogRecord :=
    ⟨"translator.api", "parsed " ++ toString analysis.statements.length ++
      " statements with " ++ toString analysis.diagnostics.length ++
      " diagnostics"⟩
  tokenizing :: analysis.grammarFaults.filterMap Fault.record? ++ [whole]

end ExprLang

import ExprLang.Evaluation
import ExprLang.Reading.Statement
import ExprLang.Report
import ExprLang.Tokenization

/-!
# Analysis of a source

Analysis tokenizes a source and reads its statements.  It always yields a tree;
faults are listed beside it, those of tokenizing before those of reading.  A
source is rejected when it has any, and only then is its tree not evaluated.
-/

namespace ExprLang

structure Analysis where
  source : String
  tokens : TokenSequence
  lexicalFaults : List Fault
  statements : List Node
  grammarFaults : List Fault
  deriving DecidableEq, Repr

def analyze (source : String) : Analysis :=
  let tokenization := tokenize source
  let tokens := tokenization.tokens
  let reading := Reading.statements tokens.terminal tokens.body
  ⟨source, tokens, tokenization.faults, reading.value, reading.faults⟩

namespace Analysis

def diagnostics (analysis : Analysis) : List Diagnostic :=
  (analysis.lexicalFaults ++ analysis.grammarFaults).map Fault.diagnostic

def isClean (analysis : Analysis) : Bool := analysis.diagnostics.isEmpty

def report (analysis : Analysis) (style : ReportStyle) : String :=
  Report.render analysis.source.toList style analysis.diagnostics

end Analysis

structure Rejection where
  diagnostics : List Diagnostic
  report : String
  deriving DecidableEq, Repr

def Rejection.text (rejection : Rejection) : String :=
  let count := rejection.diagnostics.length
  let summary :=
    toString count ++ " diagnostic" ++ (if count = 1 then "" else "s") ++
      " reported"
  if rejection.report = "" then summary
  else summary ++ "\n" ++ rejection.report

def analyzeStrictly (source : String) : Except Rejection Analysis :=
  let analysis := analyze source
  if analysis.isClean then .ok analysis
  else .error ⟨analysis.diagnostics, analysis.report .plain⟩

inductive EvaluationFailure where
  | rejected (rejection : Rejection)
  | refused (refusal : Refusal)
  deriving DecidableEq, Repr

def evaluateSource (source : String) : Except EvaluationFailure (List Int) :=
  match analyzeStrictly source with
  | .error rejection => .error (.rejected rejection)
  | .ok analysis =>
      match evaluate analysis.statements with
      | .error refusal => .error (.refused refusal)
      | .ok values => .ok values

end ExprLang

import ExprLang.Proofs.CommandLine.Settings
import ExprLang.Proofs.Evaluation.Powers
import ExprLang.Proofs.Evaluation.Source
import ExprLang.Proofs.Text.Utf8
import ExprLang.Proofs.Tree.Outline

/-!
# How the command concludes

Without diagnostics a rendering of the whole program is printed, or nothing but
the refusal of its evaluation, and with diagnostics nothing but their report.
There is one exception: values are printed one by one, and the command breaks
off at the first one that has too many digits to be written.
-/

namespace ExprLang.CommandLine

namespace Interpreter

/-! ## Printing numbers -/

section

variable {chosen : Settings} {source : String}

end

/-! ## The command -/

section

variable {arguments : List String} {chosen : Settings}
  {surroundings : Surroundings} {tree : FileTree} {stdin : List UInt8}
  {source : String}

end

end Interpreter

end ExprLang.CommandLine

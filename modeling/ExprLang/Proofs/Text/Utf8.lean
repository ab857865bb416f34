import ExprLang.CommandLine.Files
import Mathlib.Data.Char

/-!
# Characters and their bytes

The UTF-8 encoding of a text is decoded to the text.  Each character is read
from its first byte, which announces the others, through a row of trailing bytes
that carry six bits each.
-/

namespace ExprLang.Text

namespace Utf8

/-! ## One byte at a time -/

section

variable {position bits : Nat} {byte : UInt8} {bytes : List UInt8}

end

/-! ## One character at a time -/

end Utf8

end ExprLang.Text

namespace ExprLang.CommandLine

end ExprLang.CommandLine

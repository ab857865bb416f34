import ExprLang.Text.Slice

/-!
# Spans

A span is a half-open range of code-point offsets together with the text it was
taken from.  Holding the text keeps a span printable without its source.  The
bounds are signed, since a span may be built by hand, but never reversed.
-/

namespace ExprLang

structure Span where
  start : Int
  stop : Int
  literal : String
  ordered : start ≤ stop
  deriving DecidableEq, Repr

namespace Span

structure Reversed where
  start : Int
  stop : Int
  deriving DecidableEq, Repr

def Reversed.message (bounds : Reversed) : String :=
  "span start " ++ toString bounds.start ++ " is after end " ++
    toString bounds.stop

def make (start stop : Int) (literal : String) : Except Reversed Span :=
  if ordered : start ≤ stop then .ok ⟨start, stop, literal, ordered⟩
  else .error ⟨start, stop⟩

def ofSource (source : String) (start stop : Int) : Except Reversed Span :=
  make start stop (String.ofList (Text.slice source.toList start stop))

def covering (offset : Nat) (text : List Char) : Span :=
  ⟨offset, offset + text.length, String.ofList text, by omega⟩

def length (span : Span) : Int := span.stop - span.start

def bounds (span : Span) : String :=
  toString span.start ++ ".." ++ toString span.stop

theorem length_nonneg (span : Span) : 0 ≤ span.length := by
  have := span.ordered
  simp only [length]
  omega

@[simp] theorem length_covering (offset : Nat) (text : List Char) :
    (covering offset text).length = text.length := by
  simp only [length, covering]
  omega

end Span

end ExprLang

import ExprLang.Diagnostic
import ExprLang.Text.Lines

/-!
# Reports

A report shows each diagnostic in a block of four lines: an excerpt of the
source line on which the span begins, carets under the span, a bar, and the
message at the end of a pointer.  At most `maxWidth` characters of the line are
shown on either side of the span, and the lower lines are indented to match.
-/

namespace ExprLang

structure ReportStyle where
  maxWidth : Int
  color : Bool
  deriving DecidableEq, Repr

def ReportStyle.plain : ReportStyle := ⟨80, false⟩

structure Excerpt where
  before : List Char
  marked : List Char
  after : List Char
  deriving DecidableEq, Repr

def Excerpt.ofLine (line : List Char) (maxWidth column length : Int) : Excerpt :=
  let width : Int := line.length
  let markedStart := min column width
  let markedStop := min (column + length) width
  ⟨Text.slice line (max 0 (markedStart - maxWidth)) markedStart,
    Text.slice line markedStart markedStop,
    Text.slice line markedStop (min (markedStop + maxWidth) width)⟩

namespace Report

def highlightOn : String := "\x1b[31m"

def highlightOff : String := "\x1b[0m"

def excerptLine (style : ReportStyle) (excerpt : Excerpt) : String :=
  let marked := String.ofList excerpt.marked
  String.ofList excerpt.before ++
    (if style.color then highlightOn ++ marked ++ highlightOff else marked) ++
    String.ofList excerpt.after

def blockLines (text : List Char) (style : ReportStyle)
    (diagnostic : Diagnostic) : List String :=
  let span := diagnostic.span
  let index := Text.lineIndex text span.start
  let line := (Text.line? text index).getD []
  let column := span.start - (((Text.lineStart? text index).getD 0 : Nat) : Int)
  let indent := Text.run ' ' (min style.maxWidth column)
  [excerptLine style (Excerpt.ofLine line style.maxWidth column span.length),
    indent ++ Text.run '^' span.length,
    indent ++ "|",
    indent ++ "+-- " ++ diagnostic.message]

def block (text : List Char) (style : ReportStyle) (diagnostic : Diagnostic) :
    String :=
  String.intercalate "\n" (blockLines text style diagnostic)

def render (text : List Char) (style : ReportStyle)
    (diagnostics : List Diagnostic) : String :=
  String.intercalate "\n" (diagnostics.map (block text style))

def print (text : List Char) (style : ReportStyle)
    (diagnostics : List Diagnostic) : String :=
  Text.terminated (diagnostics.map (block text style))

end Report

end ExprLang

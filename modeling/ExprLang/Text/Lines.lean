import ExprLang.Text.Slice

/-!
# Lines

A line feed ends a line and nothing else does; what follows the last line feed
is the last line, even when it is empty.  Lines are numbered from zero, and a
negative number counts from the last line.  The text of a line excludes its
line feed and one carriage return before it.
-/

namespace ExprLang.Text

def startsAfterFeeds (offset : Nat) : List Char → List Nat
  | [] => []
  | character :: rest =>
      if character = '\n' then (offset + 1) :: startsAfterFeeds (offset + 1) rest
      else startsAfterFeeds (offset + 1) rest

def lineStarts (text : List Char) : List Nat := 0 :: startsAfterFeeds 0 text

def lineCount (text : List Char) : Nat := (lineStarts text).length

def insertionPoint (ascending : List Nat) (offset : Nat) : Nat :=
  (ascending.takeWhile (· ≤ offset)).length

/-- The number of the line an offset lies on, the offset held within the text. -/
def lineIndex (text : List Char) (offset : Int) : Nat :=
  insertionPoint (lineStarts text) (min offset.toNat text.length) - 1

def lineStart? (text : List Char) (index : Int) : Option Nat :=
  itemAt? (lineStarts text) index

/-- The end of a line lies one before the start of the next line, and the end
of the last line is the end of the text.  The line numbered -1 is followed by
line 0, so its end lies before the text. -/
def lineEnd? (text : List Char) (index : Int) : Option Int :=
  if index + 1 < lineCount text then
    (lineStart? text (index + 1)).map fun next => (next : Int) - 1
  else some text.length

def withoutReturn (line : List Char) : List Char :=
  if line.getLast? = some '\r' then line.dropLast else line

def line? (text : List Char) (index : Int) : Option (List Char) := do
  let start ← lineStart? text index
  let stop ← lineEnd? text index
  pure (withoutReturn (slice text start stop))

def terminated (lines : List String) : String :=
  String.join (lines.map (· ++ "\n"))

end ExprLang.Text

import ExprLang.Proofs.Report.LineIndex

/-!
# Excerpts are windows

The first line of a block is one stretch of the line on which the span begins.
Four places of the line bound it and the part of it that the span covers, and
they lie in their order whatever the span is: it may begin after the line and
end after the text (`Report.block_shows_window`).
-/

namespace ExprLang

open Text

/-! ## Windows on a line -/

/-- Four places of a line in their order.  The outer ones bound what is shown of
the line and the inner ones what is marked. -/
structure Window (line : List Char) where
  start : Nat
  markStart : Nat
  markStop : Nat
  stop : Nat
  start_le : start ≤ markStart
  mark_le : markStart ≤ markStop
  le_stop : markStop ≤ stop
  stop_le : stop ≤ line.length

theorem Text.slice_append_slice {α : Type} (items : List α)
    {start middle stop : Nat} (hstart : start ≤ middle) (hmiddle : middle ≤ stop)
    (hstop : stop ≤ items.length) :
    slice items start middle ++ slice items middle stop =
      slice items start stop := by
  have hlength : stop - start = (middle - start) + (stop - middle) := by omega
  rw [slice_of_bounds items hstart (by omega),
    slice_of_bounds items hmiddle hstop, slice_of_bounds items (by omega) hstop,
    List.drop_take, List.drop_take, List.drop_take, hlength, List.take_add,
    List.drop_drop, Nat.add_sub_of_le hstart]

theorem Text.slice_held {α : Type} (items : List α) (start count : Nat) :
    slice items (min start items.length : Nat)
        (min (start + count) items.length : Nat) =
      (items.drop start).take count := by
  rw [slice_of_bounds items (by omega) (by omega), ← List.take_eq_take_min]
  grind

theorem Text.slice_before {α : Type} (items : List α) (stop count : Nat) :
    slice items (min stop items.length - count : Nat)
        (min stop items.length : Nat) =
      (items.take stop).rtake count := by
  rw [slice_of_bounds items (by omega) (by omega), ← List.take_eq_take_min,
    List.rtake, List.length_take]

namespace Window

variable {line : List Char}

def shown (window : Window line) : List Char :=
  slice line window.start window.stop

def excerpt (window : Window line) : Excerpt :=
  ⟨slice line window.start window.markStart,
    slice line window.markStart window.markStop,
    slice line window.markStop window.stop⟩

theorem joined (window : Window line) :
    window.excerpt.before ++ window.excerpt.marked ++ window.excerpt.after =
      window.shown := by
  have hmark := Nat.le_trans window.start_le window.mark_le
  have hstop := Nat.le_trans window.le_stop window.stop_le
  rw [excerpt, slice_append_slice line window.start_le window.mark_le hstop,
    slice_append_slice line hmark window.le_stop window.stop_le, shown]

/-- The window around so many characters from a column on, with so many more on
either side.  All bounds are held within the line. -/
def around (line : List Char) (column length width : Nat) : Window line where
  start := min column line.length - width
  markStart := min column line.length
  markStop := min (column + length) line.length
  stop := min (column + length + width) line.length
  start_le := by omega
  mark_le := by omega
  le_stop := by omega
  stop_le := by omega

theorem excerpt_around (line : List Char) (column length width : Nat) :
    (around line column length width).excerpt =
      ⟨(line.take column).rtake width, (line.drop column).take length,
        (line.drop (column + length)).take width⟩ := by
  rw [← slice_before, ← slice_held, ← slice_held]
  rfl

end Window

theorem Excerpt.ofLine_eq_around (line : List Char) (column length width : Nat) :
    ofLine line width column length =
      (Window.around line column length width).excerpt := by
  have hstart : min (column : Int) line.length = (min column line.length : Nat) :=
    by omega
  have hstop : min ((column : Int) + length) line.length =
      (min (column + length) line.length : Nat) := by omega
  have hfirst : max 0 (((min column line.length : Nat) : Int) - width) =
      (min column line.length - width : Nat) := by omega
  have hlast : min (((min (column + length) line.length : Nat) : Int) + width)
      line.length = (min (column + length + width) line.length : Nat) := by omega
  simp only [ofLine, hstart, hstop, hfirst, hlast]
  rfl

/-! ## The first line of a block -/

namespace Window

variable {line : List Char} (window : Window line)

theorem shown_subset : window.shown ⊆ line := by
  intro character hshown
  rw [shown, slice] at hshown
  exact List.mem_of_mem_take (List.mem_of_mem_drop hshown)

theorem length_shown_around (line : List Char) (column length width : Nat) :
    (around line column length width).shown.length ≤ length + 2 * width := by
  rw [← joined, excerpt_around]
  simp only [List.length_append, List.rtake, List.length_drop, List.length_take]
  omega

end Window

namespace Report

theorem head?_splitOn_block {text : List Char} {style : ReportStyle}
    {diagnostic : Diagnostic} {first : String} {others : List String}
    (hlines : blockLines text style diagnostic = first :: others)
    (hfirst : '\n' ∉ first.toList) :
    (List.splitOn '\n' (block text style diagnostic).toList).head? =
      some first.toList := by
  cases others with
  | nil => simp [blockLines] at hlines
  | cons second others =>
      rw [block, hlines, String.intercalate_cons_of_ne_nil (by simp),
        String.append_assoc, String.toList_append]
      refine head?_splitOn hfirst ?_
      intro character hhead
      rw [String.toList_append] at hhead
      exact (Option.some.inj hhead).symm

theorem toList_excerptLine (maxWidth : Int) (excerpt : Excerpt) :
    (excerptLine ⟨maxWidth, false⟩ excerpt).toList =
      excerpt.before ++ excerpt.marked ++ excerpt.after := by
  simp [excerptLine]

/-- The first line of the block for a diagnostic is what a window shows of the
line on which the start of the span lies, once it is held within the text.  The
span covers the line from a column on, as far as the line goes. -/
structure ShowsWindow (text : List Char) (width : Nat) (diagnostic : Diagnostic)
    (index opening column : Nat) (line : List Char) (window : Window line) :
    Prop where
  onLine : OnLine text index (held text diagnostic.span.start)
  lineStart : lineStart? text index = some opening
  lineText : line? text index = some line
  start : diagnostic.span.start = opening + column
  excerpt : Excerpt.ofLine line width column diagnostic.span.length =
    window.excerpt
  before : window.excerpt.before = (line.take column).rtake width
  marked : window.excerpt.marked =
    (line.drop column).take diagnostic.span.length.toNat
  after : window.excerpt.after =
    (line.drop (column + diagnostic.span.length.toNat)).take width
  joined : window.excerpt.before ++ window.excerpt.marked ++
    window.excerpt.after = window.shown
  firstLine :
    (List.splitOn '\n' (block text ⟨width, false⟩ diagnostic).toList).head? =
      some window.shown
  single : '\n' ∉ window.shown
  length_le : window.shown.length ≤ diagnostic.span.length.toNat + 2 * width

/-- The first line of every block is one stretch of the right line, unless the
span begins before the text.  It may begin after its line or after the text, and
end anywhere. -/
theorem block_shows_window (text : List Char) (width : Nat)
    {diagnostic : Diagnostic} (hstart : 0 ≤ diagnostic.span.start) :
    ∃ (index opening column : Nat) (line : List Char) (window : Window line),
      ShowsWindow text width diagnostic index opening column line window := by
  obtain ⟨place, rfl, hheld, hindex⟩ := exists_place text diagnostic.span.start
  obtain ⟨length, hlength⟩ :=
    Int.eq_ofNat_of_zero_le diagnostic.span.length_nonneg
  have hcount : diagnostic.span.length.toNat = length := by omega
  -- Holding the start within the text moves it back, but not off its line.
  have hopening : (place.opening.length : Int) ≤ diagnostic.span.start := by
    simp only [held, Surroundings.offset] at hheld
    omega
  obtain ⟨column, hcolumn⟩ := Int.eq_ofNat_of_zero_le
    (Int.sub_nonneg_of_le hopening)
  let line := withoutReturn place.line
  let window := Window.around line column length width
  have hexcerpt : Excerpt.ofLine line width column length = window.excerpt :=
    Excerpt.ofLine_eq_around line column length width
  have hparts := Window.excerpt_around line column length width
  have hsingle : '\n' ∉ window.shown := fun hfeed =>
    place.line_single (withoutReturn_subset _ (window.shown_subset hfeed))
  have hfirst : (excerptLine ⟨width, false⟩ window.excerpt).toList =
      window.shown := by
    rw [toList_excerptLine, window.joined]
  have hlines : ∃ others, blockLines place.text ⟨width, false⟩ diagnostic =
      excerptLine ⟨width, false⟩ window.excerpt :: others := by
    rw [← hexcerpt]
    simp only [blockLines, ← hindex, place.line?_text, place.lineStart?_text,
      Option.getD_some, hcolumn, hlength]
    exact ⟨_, rfl⟩
  obtain ⟨others, hlines⟩ := hlines
  refine ⟨place.index, place.opening.length, column, line, window, ?_⟩
  exact {
    onLine :=
      (onLine_iff place.text diagnostic.span.start place.index).mpr hindex
    lineStart := place.lineStart?_text
    lineText := place.line?_text
    start := by omega
    excerpt := by rw [hlength]; exact hexcerpt
    before := congrArg Excerpt.before hparts
    marked := by rw [hcount]; exact congrArg Excerpt.marked hparts
    after := by rw [hcount]; exact congrArg Excerpt.after hparts
    joined := window.joined
    firstLine := by
      rw [head?_splitOn_block hlines (by rw [hfirst]; exact hsingle), hfirst]
    single := hsingle
    length_le := by
      rw [hcount]
      exact Window.length_shown_around line column length width }

def pastReturn : Diagnostic := ⟨.error, "unknown", ⟨3, 8, "", by decide⟩⟩

theorem pastReturn_shows_window :
    0 ≤ pastReturn.span.start ∧
      ∃ (index opening column : Nat) (line : List Char) (window : Window line),
        ShowsWindow ['a', 'b', '\r', '\n', 'c'] 1 pastReturn index opening
          column line window := by
  have hstart : 0 ≤ pastReturn.span.start := by decide
  exact ⟨hstart, block_shows_window _ 1 hstart⟩

end Report

end ExprLang

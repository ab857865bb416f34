import ExprLang.Report
import Mathlib.Data.List.DropRight

/-!
# The line around a place

Around any place of a text there is one line, with ended lines before it and
its own line feed and more lines after it.  `Surroundings` is a text split up in
this way.  The number of the line, its start and its characters are read off the
parts, and so is the block that a report shows for a span at the place.
-/

namespace ExprLang

namespace Text

/-! ## Starts of lines -/

theorem startsAfterFeeds_append (offset : Nat) (first second : List Char) :
    startsAfterFeeds offset (first ++ second) =
      startsAfterFeeds offset first ++
        startsAfterFeeds (offset + first.length) second := by
  induction first generalizing offset with
  | nil => rfl
  | cons character first ih =>
      have hrest := ih (offset + 1)
      rw [Nat.add_assoc, Nat.add_comm 1] at hrest
      simp only [List.cons_append, startsAfterFeeds, hrest, List.length_cons]
      split <;> rfl

theorem startsAfterFeeds_bounds (offset : Nat) (text : List Char) :
    ∀ start ∈ startsAfterFeeds offset text,
      offset < start ∧ start ≤ offset + text.length := by
  induction text generalizing offset with
  | nil => simp [startsAfterFeeds]
  | cons character rest ih =>
      intro start hstart
      have hrest : ∀ start ∈ startsAfterFeeds (offset + 1) rest,
          offset < start ∧ start ≤ offset + (rest.length + 1) := by
        intro start hstart
        have hbounds := ih (offset + 1) start hstart
        omega
      simp only [startsAfterFeeds] at hstart
      split at hstart
      · rcases List.mem_cons.mp hstart with rfl | hstart
        · simp only [List.length_cons]
          omega
        · exact hrest start hstart
      · exact hrest start hstart

theorem length_startsAfterFeeds (offset : Nat) (text : List Char) :
    (startsAfterFeeds offset text).length = text.count '\n' := by
  induction text generalizing offset with
  | nil => rfl
  | cons character rest ih =>
      simp only [startsAfterFeeds, List.count_cons, beq_iff_eq]
      split <;> simp [ih]

theorem startsAfterFeeds_eq_nil (offset : Nat) {text : List Char}
    (h : '\n' ∉ text) : startsAfterFeeds offset text = [] := by
  rw [← List.length_eq_zero_iff, length_startsAfterFeeds]
  exact List.count_eq_zero.mpr h

def Ended (text : List Char) : Prop :=
  ∀ character, text.getLast? = some character → character = '\n'

def Ending (text : List Char) : Prop :=
  ∀ character, text.head? = some character → character = '\n'

theorem lineStarts_of_ended {text : List Char} (h : Ended text) :
    ∃ earlier, lineStarts text = earlier ++ [text.length] ∧
      earlier.length = text.count '\n' := by
  rcases text.eq_nil_or_concat with rfl | ⟨lines, last, rfl⟩
  · exact ⟨[], rfl, rfl⟩
  · have hlast : last = '\n' := h last (by simp)
    subst hlast
    refine ⟨lineStarts lines, ?_, ?_⟩
    · simp [lineStarts, startsAfterFeeds_append, startsAfterFeeds]
    · simp [lineStarts, length_startsAfterFeeds]

theorem withoutReturn_concat (line : List Char) :
    withoutReturn (line ++ ['\r']) = line := by
  simp [withoutReturn]

theorem withoutReturn_eq_self {line : List Char} (h : '\r' ∉ line) :
    withoutReturn line = line := by
  rw [withoutReturn, if_neg]
  intro hlast
  exact h (List.mem_of_getLast? hlast)

theorem withoutReturn_subset (line : List Char) :
    withoutReturn line ⊆ line := by
  rw [withoutReturn]
  split
  · exact List.dropLast_subset line
  · exact List.Subset.refl line

def rawLine? (text : List Char) (index : Int) : Option (List Char) := do
  let start ← lineStart? text index
  let stop ← lineEnd? text index
  pure (slice text start stop)

theorem line?_eq_map (text : List Char) (index : Int) :
    line? text index = (rawLine? text index).map withoutReturn := by
  cases hstart : lineStart? text index <;>
    cases hstop : lineEnd? text index <;> simp [line?, rawLine?, hstart, hstop]

/-- The number of the line on which an offset lies, and the column there. -/
def position (text : List Char) (offset : Int) : Nat × Int :=
  let index := lineIndex text offset
  (index, offset - (((lineStart? text index).getD 0 : Nat) : Int))

/-! ## A text around a place -/

/-- A text that is split up around a place on one of its lines. -/
structure Surroundings where
  opening : List Char
  left : List Char
  right : List Char
  closing : List Char
  opening_ended : Ended opening
  left_single : '\n' ∉ left
  right_single : '\n' ∉ right
  closing_ending : Ending closing

namespace Surroundings

def line (place : Surroundings) : List Char := place.left ++ place.right

def text (place : Surroundings) : List Char :=
  place.opening ++ (place.line ++ place.closing)

def offset (place : Surroundings) : Nat :=
  place.opening.length + place.left.length

def index (place : Surroundings) : Nat := place.opening.count '\n'

def around (before after : List Char) : Surroundings where
  opening := before.rdropWhile (· ≠ '\n')
  left := before.rtakeWhile (· ≠ '\n')
  right := after.takeWhile (· ≠ '\n')
  closing := after.dropWhile (· ≠ '\n')
  opening_ended := by
    intro character hlast
    have hnot := List.head?_dropWhile_not (· ≠ '\n') before.reverse
    rw [List.rdropWhile, List.getLast?_reverse] at hlast
    rw [hlast] at hnot
    simpa using hnot
  left_single := by
    intro hfeed
    simpa using List.mem_rtakeWhile_imp hfeed
  right_single := by
    intro hfeed
    simpa using List.mem_takeWhile_imp hfeed
  closing_ending := by
    intro character hhead
    have hnot := List.head?_dropWhile_not (· ≠ '\n') after
    rw [hhead] at hnot
    simpa using hnot

@[simp] theorem text_around (before after : List Char) :
    (around before after).text = before ++ after := by
  rw [text, line, around, List.append_assoc, List.takeWhile_append_dropWhile,
    ← List.append_assoc, List.rdropWhile_append_rtakeWhile]

@[simp] theorem offset_around (before after : List Char) :
    (around before after).offset = before.length := by
  rw [offset, around, ← List.length_append, List.rdropWhile_append_rtakeWhile]

variable (place : Surroundings)

theorem line_single : '\n' ∉ place.line := by
  simp [line, place.left_single, place.right_single]

theorem lineStarts_text :
    lineStarts place.text = lineStarts place.opening ++
      startsAfterFeeds (place.opening.length + place.line.length)
        place.closing := by
  rw [lineStarts, text, startsAfterFeeds_append, startsAfterFeeds_append,
    startsAfterFeeds_eq_nil _ place.line_single, Nat.zero_add]
  rfl

theorem lineIndex_text : lineIndex place.text place.offset = place.index := by
  have hclamped : min (place.offset : Int).toNat place.text.length =
      place.offset := by
    simp only [offset, text, line, List.length_append, Int.toNat_natCast]
    omega
  have hbefore : ∀ start ∈ lineStarts place.opening,
      decide (start ≤ place.offset) = true := by
    intro start hstart
    refine decide_eq_true ?_
    rcases List.mem_cons.mp hstart with rfl | hstart
    · exact Nat.zero_le _
    · have hbounds := startsAfterFeeds_bounds 0 place.opening start hstart
      simp only [offset]
      omega
  have hafter : (startsAfterFeeds (place.opening.length + place.line.length)
      place.closing).takeWhile (fun start => start ≤ place.offset) = [] := by
    refine List.takeWhile_eq_nil_iff.mpr ?_
    intro hpos hfirst
    have hle := of_decide_eq_true hfirst
    have hbounds := startsAfterFeeds_bounds _ place.closing _
      (List.getElem_mem hpos)
    have hlength : place.line.length = place.left.length + place.right.length :=
      List.length_append
    simp only [offset, List.get_eq_getElem] at hle
    omega
  rw [lineIndex, hclamped, insertionPoint, lineStarts_text,
    List.takeWhile_append_of_pos hbefore, hafter]
  simp [lineStarts, length_startsAfterFeeds, index]

theorem lineStart?_text :
    lineStart? place.text place.index = some place.opening.length := by
  obtain ⟨earlier, hearlier, hlength⟩ := lineStarts_of_ended place.opening_ended
  rw [lineStart?, itemAt?_natCast, lineStarts_text, hearlier, index, ← hlength]
  simp

theorem offset_sub_opening :
    (place.offset : Int) - place.opening.length = place.left.length := by
  simp only [offset]
  omega

theorem position_text : position place.text place.offset =
    (place.index, (place.left.length : Int)) := by
  simp only [position, lineIndex_text, lineStart?_text, Option.getD_some,
    offset_sub_opening]

theorem lineEnd?_text :
    lineEnd? place.text place.index =
      some ((place.opening.length + place.line.length : Nat) : Int) := by
  have hcount : (lineStarts place.opening).length = place.index + 1 := by
    simp [lineStarts, length_startsAfterFeeds, index]
  have hending := place.closing_ending
  have hstarts := place.lineStarts_text
  cases hclosing : place.closing with
  | nil =>
      rw [hclosing, startsAfterFeeds, List.append_nil] at hstarts
      rw [lineEnd?, if_neg (by simp [lineCount, hstarts, hcount])]
      simp [text, hclosing]
  | cons first rest =>
      have hfeed : first = '\n' := hending first (by simp [hclosing])
      rw [hclosing, startsAfterFeeds, if_pos hfeed] at hstarts
      have hnext : lineStart? place.text (place.index + 1 : Nat) =
          some (place.opening.length + place.line.length + 1) := by
        rw [lineStart?, itemAt?_natCast, hstarts, ← hcount]
        simp
      have hmore : (place.index : Int) + 1 < lineCount place.text := by
        simp only [lineCount, hstarts, List.length_append, hcount,
          List.length_cons]
        omega
      rw [lineEnd?, if_pos hmore, ← Int.natCast_one, ← Int.natCast_add, hnext]
      simp

theorem rawLine?_text : rawLine? place.text place.index = some place.line := by
  have htake : place.text.take (place.opening.length + place.line.length) =
      place.opening ++ place.line := by
    rw [text, ← List.append_assoc, ← List.length_append, List.take_left]
  have hslice : slice place.text place.opening.length
      (place.opening.length + place.line.length : Nat) = place.line := by
    rw [slice_of_bounds _ (by omega) (by simp [text]), htake, List.drop_left]
  simp only [rawLine?, lineStart?_text, lineEnd?_text, Option.bind_eq_bind,
    Option.bind_some, hslice]
  rfl

theorem line?_text :
    line? place.text place.index = some (withoutReturn place.line) := by
  rw [line?_eq_map, rawLine?_text, Option.map_some]

end Surroundings

end Text

/-! ## Blocks -/

open Text

/-- What a report shows of a span is the line that its start lies on. -/
theorem Report.blockLines_surroundings (place : Surroundings)
    (style : ReportStyle) {diagnostic : Diagnostic}
    (hstart : diagnostic.span.start = place.offset) :
    blockLines place.text style diagnostic =
      let length := diagnostic.span.length
      let indent := Text.run ' ' (min style.maxWidth place.left.length)
      [excerptLine style (Excerpt.ofLine (withoutReturn place.line)
          style.maxWidth place.left.length length),
        indent ++ Text.run '^' length, indent ++ "|",
        indent ++ "+-- " ++ diagnostic.message] := by
  simp only [blockLines, hstart, Surroundings.lineIndex_text,
    Surroundings.line?_text, Surroundings.lineStart?_text, Option.getD_some,
    Surroundings.offset_sub_opening]

end ExprLang

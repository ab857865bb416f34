import ExprLang.Proofs.Report.Lines

/-!
# The lines of a text

The starts of lines are the places after line feeds, so the number of the line
on which an offset lies is the number of line feeds before the offset.  There is
just one line from whose start to whose end an offset lies, and the lines from
start to end, joined by line feeds, are the text (`lines_indexed`).
-/

namespace ExprLang.Text

/-! ## Starts of lines -/

theorem startsAfterFeeds_increasing (offset : Nat) (text : List Char) :
    (startsAfterFeeds offset text).Pairwise (· < ·) := by
  induction text generalizing offset with
  | nil => exact .nil
  | cons character rest ih =>
      simp only [startsAfterFeeds]
      split
      · refine .cons ?_ (ih (offset + 1))
        intro start hstart
        exact (startsAfterFeeds_bounds (offset + 1) rest start hstart).1
      · exact ih (offset + 1)

theorem lineStarts_increasing (text : List Char) :
    (lineStarts text).Pairwise (· < ·) := by
  refine .cons ?_ (startsAfterFeeds_increasing 0 text)
  intro start hstart
  exact (startsAfterFeeds_bounds 0 text start hstart).1

theorem mem_startsAfterFeeds (offset : Nat) (text : List Char) (start : Nat) :
    start ∈ startsAfterFeeds offset text ↔
      ∃ feed, text[feed]? = some '\n' ∧ start = offset + feed + 1 := by
  induction text generalizing offset with
  | nil => simp [startsAfterFeeds]
  | cons character rest ih =>
      rw [← Nat.or_exists_add_one]
      simp only [List.getElem?_cons_zero, List.getElem?_cons_succ,
        Option.some.injEq, Nat.add_zero, ← Nat.add_assoc,
        Nat.add_right_comm offset _ 1]
      rw [← ih (offset + 1), startsAfterFeeds]
      split
      case isTrue hfeed => simp [hfeed]
      case isFalse hother => simp [hother]

/-! ## Line feeds before an offset -/

theorem length_splitOn (text : List Char) :
    (List.splitOn '\n' text).length = text.count '\n' + 1 := by
  induction text with
  | nil => rfl
  | cons character rest ih =>
      rw [List.splitOn_cons_eq_if_modifyHead, List.count_cons]
      split <;> simp [ih]

theorem lineCount_eq (text : List Char) :
    lineCount text = text.count '\n' + 1 := by
  simp [lineCount, lineStarts, length_startsAfterFeeds]

theorem exists_count_eq {text : List Char} {count : Nat}
    (h : count ≤ text.count '\n') :
    ∃ before after, before ++ after = text ∧ before.count '\n' = count := by
  induction text generalizing count with
  | nil => exact ⟨[], [], rfl, (Nat.le_zero.mp h).symm⟩
  | cons character rest ih =>
      by_cases hfeed : character = '\n'
      · subst hfeed
        cases count with
        | zero => exact ⟨[], _, rfl, rfl⟩
        | succ count =>
            rw [List.count_cons_self] at h
            obtain ⟨before, after, rfl, rfl⟩ := ih (Nat.le_of_succ_le_succ h)
            exact ⟨'\n' :: before, after, rfl, List.count_cons_self⟩
      · rw [List.count_cons_of_ne hfeed] at h
        obtain ⟨before, after, rfl, rfl⟩ := ih h
        exact ⟨character :: before, after, rfl, List.count_cons_of_ne hfeed⟩

theorem splitOn_of_ended {lines : List Char} (h : Ended lines)
    (rest : List Char) :
    ∃ earlier, List.splitOn '\n' (lines ++ rest) =
        earlier ++ List.splitOn '\n' rest ∧
      earlier.length = lines.count '\n' := by
  rcases lines.eq_nil_or_concat with rfl | ⟨lines, last, rfl⟩
  · exact ⟨[], rfl, rfl⟩
  · have hlast : last = '\n' := h last (by simp)
    subst hlast
    refine ⟨List.splitOn '\n' lines, ?_, ?_⟩
    · rw [List.concat_append]
      exact List.splitOn_append_cons_self lines rest
    · simp [length_splitOn]

theorem head?_splitOn {line closing : List Char} (hline : '\n' ∉ line)
    (h : Ending closing) :
    (List.splitOn '\n' (line ++ closing)).head? = some line := by
  cases closing with
  | nil => rw [List.append_nil, List.splitOn_eq_singleton hline, List.head?_cons]
  | cons first rest =>
      have hfirst : first = '\n' := h first rfl
      subst hfirst
      rw [List.splitOn_append_cons_self_of_not_mem hline, List.head?_cons]

namespace Surroundings

theorem index_around (before after : List Char) :
    (around before after).index = before.count '\n' := by
  have hleft := List.count_eq_zero.mpr (around before after).left_single
  calc
    (around before after).index =
        (around before after).opening.count '\n' +
          (around before after).left.count '\n' := by rw [hleft]; rfl
    _ = before.count '\n' := by
        rw [← List.count_append, around, List.rdropWhile_append_rtakeWhile]

theorem exists_index {text : List Char} {index : Nat}
    (h : index < lineCount text) :
    ∃ place : Surroundings, place.text = text ∧ place.index = index := by
  rw [lineCount_eq] at h
  obtain ⟨before, after, hsplit, hcount⟩ :=
    exists_count_eq (Nat.le_of_lt_succ h)
  refine ⟨around before after, ?_, ?_⟩
  · rw [text_around, hsplit]
  · rw [index_around, hcount]

variable (place : Surroundings)

theorem offset_le :
    place.offset ≤ place.opening.length + place.line.length := by
  simp only [offset, line, List.length_append]
  omega

theorem count_take_text {offset : Nat} (hstart : place.opening.length ≤ offset)
    (hstop : offset ≤ place.opening.length + place.line.length) :
    (place.text.take offset).count '\n' = place.index := by
  obtain ⟨column, rfl⟩ := Nat.exists_eq_add_of_le hstart
  have hcolumn : column ≤ place.line.length := Nat.le_of_add_le_add_left hstop
  have hline : '\n' ∉ place.line.take column :=
    fun hfeed => place.line_single (List.mem_of_mem_take hfeed)
  rw [text, List.take_length_add_append, List.take_append_of_le_length hcolumn,
    List.count_append, List.count_eq_zero.mpr hline]
  rfl

theorem getElem?_splitOn_text :
    (List.splitOn '\n' place.text)[place.index]? = some place.line := by
  obtain ⟨earlier, hsplit, hlength⟩ :=
    splitOn_of_ended place.opening_ended (place.line ++ place.closing)
  rw [text, hsplit, index, ← hlength,
    List.getElem?_append_right (Nat.le_refl _), Nat.sub_self,
    ← List.head?_eq_getElem?,
    head?_splitOn place.line_single place.closing_ending]

end Surroundings

/-! ## Lines and offsets -/

/-- An offset held between the start and the end of the text. -/
def held (text : List Char) (offset : Int) : Int :=
  max 0 (min offset text.length)

def OnLine (text : List Char) (index : Nat) (offset : Int) : Prop :=
  ∃ start stop, lineStart? text index = some start ∧
    lineEnd? text index = some stop ∧ start ≤ offset ∧ offset ≤ stop

theorem held_eq (text : List Char) (offset : Int) :
    held text offset = (min offset.toNat text.length : Nat) := by
  simp only [held]
  omega

/-- The held offset has a place, whose line is the one of the offset. -/
theorem exists_place (text : List Char) (offset : Int) :
    ∃ place : Surroundings, place.text = text ∧
      held text offset = place.offset ∧
      place.index = lineIndex text offset := by
  let before := text.take (min offset.toNat text.length)
  let place := Surroundings.around before (text.drop before.length)
  have hlength : before.length = min offset.toNat text.length :=
    List.length_take_of_le (Nat.min_le_right _ _)
  have htext : place.text = text := by
    rw [Surroundings.text_around, hlength]
    exact List.take_append_drop _ _
  have hoffset : place.offset = min offset.toNat text.length := by
    rw [Surroundings.offset_around, hlength]
  refine ⟨place, htext, ?_, ?_⟩
  · rw [held_eq, hoffset]
  · rw [← place.lineIndex_text, htext, hoffset, lineIndex, Int.toNat_natCast,
      Nat.min_assoc, Nat.min_self, lineIndex]

theorem lineIndex_eq_count (text : List Char) (offset : Int) :
    lineIndex text offset = (text.take (held text offset).toNat).count '\n' := by
  obtain ⟨place, rfl, hheld, hindex⟩ := exists_place text offset
  rw [hheld, Int.toNat_natCast, ← hindex, place.count_take_text]
  · exact Nat.le_add_right _ _
  · exact place.offset_le

theorem onLine_iff (text : List Char) (offset : Int) (index : Nat) :
    OnLine text index (held text offset) ↔ index = lineIndex text offset := by
  constructor
  · rintro ⟨start, stop, hstart, hstop, hle, hle'⟩
    have hindex : index < lineCount text := by
      rw [lineStart?, itemAt?_natCast] at hstart
      exact (List.getElem?_eq_some_iff.mp hstart).1
    obtain ⟨place, rfl, rfl⟩ := Surroundings.exists_index hindex
    rw [place.lineStart?_text, Option.some.injEq] at hstart
    rw [place.lineEnd?_text, Option.some.injEq] at hstop
    rw [lineIndex_eq_count, place.count_take_text] <;> omega
  · rintro rfl
    obtain ⟨place, rfl, hheld, hindex⟩ := exists_place text offset
    rw [← hindex, hheld]
    refine ⟨_, _, place.lineStart?_text, place.lineEnd?_text, ?_, ?_⟩
    · exact Int.ofNat_le.mpr (Nat.le_add_right _ _)
    · exact Int.ofNat_le.mpr place.offset_le

theorem lineIndex_mono (text : List Char) {offset later : Int}
    (h : offset ≤ later) : lineIndex text offset ≤ lineIndex text later := by
  rw [lineIndex_eq_count, lineIndex_eq_count]
  have hheld : (held text offset).toNat ≤ (held text later).toNat := by
    simp only [held]
    omega
  exact (List.take_prefix_take_left hheld).sublist.count_le '\n'

theorem rawLine?_eq_getElem? (text : List Char) (index : Nat) :
    rawLine? text index = (List.splitOn '\n' text)[index]? := by
  by_cases hindex : index < lineCount text
  · obtain ⟨place, rfl, rfl⟩ := Surroundings.exists_index hindex
    rw [place.rawLine?_text, place.getElem?_splitOn_text]
  · have hstart : lineStart? text index = none := by
      rw [lineStart?, itemAt?_natCast]
      exact List.getElem?_eq_none (Nat.not_lt.mp hindex)
    have hlength : (List.splitOn '\n' text).length ≤ index := by
      rw [length_splitOn, ← lineCount_eq]
      exact Nat.not_lt.mp hindex
    rw [rawLine?, hstart, List.getElem?_eq_none hlength]
    rfl

theorem map_rawLine? (text : List Char) :
    (List.range (lineCount text)).map (fun index : Nat => rawLine? text index) =
      (List.splitOn '\n' text).map some := by
  apply List.ext_getElem
  · simp [lineCount_eq, length_splitOn]
  · intro index hleft hright
    simp [rawLine?_eq_getElem?]

/-- How the lines of a text are found: what the starts of lines are, on which
line an offset lies, and what the text of a line is. -/
structure LinesIndexed (text : List Char) : Prop where
  first : (lineStarts text).head? = some 0
  increasing : (lineStarts text).Pairwise (· < ·)
  starts : ∀ start, start ∈ lineStarts text ↔
    start = 0 ∨ ∃ feed, text[feed]? = some '\n' ∧ start = feed + 1
  index : ∀ offset,
    lineIndex text offset = (text.take (held text offset).toNat).count '\n'
  unique : ∀ offset index,
    OnLine text index (held text offset) ↔ index = lineIndex text offset
  start_index : ∀ index : Nat, index < lineCount text →
    ∃ start, lineStart? text index = some start ∧ lineIndex text start = index
  monotone : ∀ offset later, offset ≤ later →
    lineIndex text offset ≤ lineIndex text later
  line : ∀ index : Nat,
    line? text index = (List.splitOn '\n' text)[index]?.map withoutReturn
  joined : ∃ lines, (List.range (lineCount text)).map
      (fun index : Nat => rawLine? text index) = lines.map some ∧
    ['\n'].intercalate lines = text

theorem lines_indexed (text : List Char) : LinesIndexed text where
  first := rfl
  increasing := lineStarts_increasing text
  starts start := by
    rw [lineStarts, List.mem_cons, mem_startsAfterFeeds]
    simp only [Nat.zero_add]
  index := lineIndex_eq_count text
  unique := onLine_iff text
  start_index := by
    intro index hindex
    obtain ⟨place, rfl, rfl⟩ := Surroundings.exists_index hindex
    refine ⟨_, place.lineStart?_text, ?_⟩
    have hheld : (held place.text place.opening.length).toNat =
        place.opening.length := by
      simp only [held, Surroundings.text, List.length_append]
      omega
    rw [lineIndex_eq_count, hheld, place.count_take_text] <;> omega
  monotone offset later := lineIndex_mono text
  line index := by
    rw [line?_eq_map, rawLine?_eq_getElem?]
  joined := ⟨_, map_rawLine? text, List.intercalate_splitOn '\n'⟩

end ExprLang.Text

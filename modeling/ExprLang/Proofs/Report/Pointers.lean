import ExprLang.Proofs.Lexicon.CarriageReturns
import ExprLang.Proofs.Report.Order
import ExprLang.Proofs.Report.Windows
import ExprLang.Proofs.Text.Joining

/-!
# Pointers line up

What is reported of a source neither begins nor ends with a blank, and only the
end of the text is reported as an empty span.  So a span begins within the line
that is shown of it, the lower lines of its block are indented by just what is
shown before it, and the span stands there as far as its line goes.
-/

namespace ExprLang

/-! ## Spans without blanks at their ends -/

namespace Text

structure Trimmed (text : List Char) : Prop where
  head : ∀ character, text.head? = some character →
    character ∉ Lexicon.blanks
  last : ∀ character, text.getLast? = some character →
    character ∉ Lexicon.blanks

theorem trimmed_of_unblank {text : List Char}
    (h : ∀ character ∈ text, character ∉ Lexicon.blanks) : Trimmed text where
  head character hhead := h character (List.mem_of_head? hhead)
  last character hlast := h character (List.mem_of_getLast? hlast)

end Text

open Text

theorem Lexicon.trimmed_of_word {kind : TokenKind} {word : List Char}
    (h : word ∈ wordsOf kind) : Trimmed word := by
  by_cases hkind : kind = .stringLiteral
  · -- A string may hold blanks, but quotes enclose them.
    subst hkind
    obtain ⟨items, -, rfl⟩ := mem_strings.mp h
    constructor
    · intro character hhead
      cases hhead
      decide
    · intro character hlast
      rw [← List.cons_append, List.getLast?_concat] at hlast
      cases hlast
      decide
  · exact trimmed_of_unblank (not_mem_blanks_of_word h hkind)

namespace Piece

def IsTrimmed : Piece → Prop
  | blank _ => True
  | word _ text => Trimmed text
  | unknown text => ∀ character ∈ text, character ∉ Lexicon.blanks

theorem isTrimmed_ofWord {kind : TokenKind} {text : List Char}
    (h : text ∈ Lexicon.wordsOf kind) : (ofWord kind text).IsTrimmed := by
  unfold ofWord
  split
  case isTrue => exact Lexicon.trimmed_of_word h
  case isFalse hrefused =>
    refine Lexicon.not_mem_blanks_of_word h ?_
    rintro rfl
    exact hrefused rfl

theorem pieces_isTrimmed (text : List Char) :
    ∀ piece ∈ pieces text, piece.IsTrimmed := by
  fun_induction pieces text with
  | case1 => simp
  | case2 character rest hblank ih =>
      exact List.forall_mem_cons.mpr ⟨trivial, ih⟩
  | case3 character rest hblank found hfound ih =>
      have hmem := (Lexicon.match?_leadingWord hfound).mem
      exact List.forall_mem_cons.mpr ⟨isTrimmed_ofWord hmem, ih⟩
  | case4 character rest hblank hfound ih =>
      rw [Lexicon.isBlank_iff] at hblank
      exact List.forall_mem_cons.mpr
        ⟨List.forall_mem_cons.mpr ⟨hblank, not_mem_blanks_of_unknown rest⟩, ih⟩

end Piece

/-- The span covers a trimmed part of the text, which is empty at the end of the
text only. -/
def Span.Trims (text : List Char) (span : Span) : Prop :=
  ∃ before segment after, text = before ++ (segment ++ after) ∧
    span = covering before.length segment ∧ Trimmed segment ∧
    (segment = [] → after = [])

namespace Piece

theorem placeSpans_trims {text before : List Char} {pieces : List Piece}
    (hproper : ∀ piece ∈ pieces, piece.IsProper ∧ piece.IsTrimmed)
    (htext : text = before ++ pieces.flatMap Piece.text) :
    ∀ span ∈ placeSpans before.length pieces, span.Trims text := by
  -- The text read so far fixes the offset, and grows by one piece.
  induction pieces generalizing before with
  | nil => simp [placeSpans]
  | cons piece pieces ih =>
      obtain ⟨⟨hpiece, htrimmed⟩, hpieces⟩ := List.forall_mem_cons.mp hproper
      rw [List.flatMap_cons] at htext
      have hothers := @ih (before ++ piece.text) hpieces
        (by rw [htext, List.append_assoc])
      rw [List.length_append] at hothers
      cases piece with
      | blank character => exact hothers
      | word kind word =>
          exact List.forall_mem_cons.mpr
            ⟨⟨before, word, _, htext, rfl, htrimmed, fun h => absurd h hpiece⟩,
              hothers⟩
      | unknown stretch =>
          exact List.forall_mem_cons.mpr
            ⟨⟨before, stretch, _, htext, rfl, trimmed_of_unblank htrimmed,
              fun h => absurd h hpiece⟩, hothers⟩

theorem unblank_of_placeUnknown {offset : Nat} {pieces : List Piece}
    (h : ∀ piece ∈ pieces, piece.IsTrimmed) :
    ∀ fault ∈ placeUnknown offset pieces, ∃ span, fault = .unknownToken span ∧
      ∀ character ∈ span.literal.toList, character ∉ Lexicon.blanks := by
  induction pieces generalizing offset with
  | nil => simp [placeUnknown]
  | cons piece pieces ih =>
      obtain ⟨hpiece, hpieces⟩ := List.forall_mem_cons.mp h
      cases piece with
      | blank character => exact ih hpieces
      | word kind word => exact ih hpieces
      | unknown stretch =>
          refine List.forall_mem_cons.mpr ⟨⟨_, rfl, ?_⟩, ih hpieces⟩
          have hstretch : ∀ character ∈ stretch, character ∉ Lexicon.blanks :=
            hpiece
          simpa [Span.covering] using hstretch

end Piece

section

variable (source : String)

theorem placeSpans_source_trims :
    ∀ span ∈ Piece.placeSpans 0 (Piece.pieces source.toList),
      span.Trims source.toList := by
  have hpieces : ∀ piece ∈ Piece.pieces source.toList,
      piece.IsProper ∧ piece.IsTrimmed := fun piece hmem =>
    ⟨Piece.pieces_isProper _ piece hmem, Piece.pieces_isTrimmed _ piece hmem⟩
  exact @Piece.placeSpans_trims source.toList [] _ hpieces
    (by rw [Piece.flatMap_text_pieces, List.nil_append])

theorem tokens_trim :
    ∀ token ∈ (tokenize source).tokens.toList,
      token.span.Trims source.toList := by
  intro token htoken
  rcases List.mem_append.mp htoken with hbody | hterminal
  · have hspan : token.span ∈ (tokenize source).tokens.body.map Token.span :=
      List.mem_map_of_mem hbody
    exact placeSpans_source_trims source _
      ((Piece.placeTokens_sublist 0 _).subset hspan)
  · rw [List.mem_singleton.mp hterminal]
    exact ⟨source.toList, [], [], by simp, rfl, trimmed_of_unblank (by simp),
      fun _ => rfl⟩

theorem lexicalFaults_trim :
    ∀ fault ∈ (tokenize source).faults,
      fault.span.Trims source.toList ∧ '\n' ∉ fault.message.toList := by
  intro fault hfault
  have hspan : fault.span ∈ (tokenize source).faults.map Fault.span :=
    List.mem_map_of_mem hfault
  refine ⟨placeSpans_source_trims source _
    ((Piece.placeUnknown_sublist 0 _).subset hspan), ?_⟩
  obtain ⟨span, rfl, hunblank⟩ := Piece.unblank_of_placeUnknown
    (Piece.pieces_isTrimmed source.toList) fault hfault
  have hfeed : '\n' ∉ span.literal.toList :=
    fun hmem => hunblank '\n' hmem (by decide)
  change '\n' ∉ ("unknown token <" ++ span.literal ++ ">").toList
  simp [hfeed]

theorem grammarFaults_trim :
    ∀ fault ∈ (analyze source).grammarFaults,
      fault.span.Trims source.toList ∧ '\n' ∉ fault.message.toList := by
  have hname : ∀ kind ∈ TokenKind.all, '\n' ∉ kind.name.toList := by decide
  intro fault hfault
  obtain ⟨token, htoken, hfound⟩ := grammarFault_found source fault hfault
  refine ⟨?_, ?_⟩
  · rw [Fault.span_of_found? hfound]
    exact tokens_trim source token htoken
  · cases fault with
    | unknownToken span => cases hfound
    | unexpectedToken required found =>
        change '\n' ∉ ("expected <" ++ required.name ++ ">, found <" ++
          found.kind.name ++ ">").toList
        simp [hname _ required.mem_all, hname _ found.kind.mem_all]
    | expectedExpression found =>
        change '\n' ∉ ("expected expression, found <" ++ found.kind.name ++
          ">").toList
        simp [hname _ found.kind.mem_all]

theorem reported_trim :
    ∀ diagnostic ∈ (analyze source).diagnostics,
      diagnostic.span.Trims source.toList ∧
        '\n' ∉ diagnostic.message.toList :=
  List.forall_mem_map.mpr (List.forall_mem_append.mpr
    ⟨lexicalFaults_trim source, grammarFaults_trim source⟩)

end

/-! ## The line that is shown -/

namespace Text

theorem withoutReturn_append {left right : List Char}
    (h : right = [] → left.getLast? ≠ some '\r') :
    withoutReturn (left ++ right) = left ++ withoutReturn right := by
  by_cases hright : right = []
  · subst hright
    simp [withoutReturn, h rfl]
  · simp only [withoutReturn, List.getLast?_append_of_ne_nil left hright]
    split
    · exact List.dropLast_append_of_ne_nil hright
    · rfl

theorem Trimmed.getLast?_ne {text : List Char} (h : Trimmed text) :
    text.getLast? ≠ some '\r' :=
  fun hlast => h.last '\r' hlast (by decide)

theorem Trimmed.withoutReturn {text : List Char} (h : Trimmed text) :
    withoutReturn text = text := by
  rw [Text.withoutReturn, if_neg h.getLast?_ne]

theorem takeWhile_single {text : List Char} (h : '\n' ∉ text) :
    text.takeWhile (· ≠ '\n') = text := by
  refine List.takeWhile_eq_self_iff.mpr ?_
  intro character hmem
  refine decide_eq_true ?_
  rintro rfl
  exact h hmem

theorem shown_segment {segment : List Char} (h : Trimmed segment)
    (after : List Char) :
    (withoutReturn ((segment ++ after).takeWhile (· ≠ '\n'))).take
        segment.length =
      withoutReturn (segment.takeWhile (· ≠ '\n')) := by
  by_cases hsingle : '\n' ∈ segment
  · have hshort : (segment.takeWhile (· ≠ '\n')).length ≠ segment.length := by
      intro hlength
      have hall := List.IsPrefix.eq_of_length (List.takeWhile_prefix _) hlength
      rw [← hall] at hsingle
      simpa using List.mem_takeWhile_imp hsingle
    rw [List.takeWhile_append, if_neg hshort]
    refine List.take_of_length_le ?_
    have hle := (List.takeWhile_prefix (p := (· ≠ '\n')) (l := segment)).length_le
    rw [withoutReturn]
    split
    · rw [List.length_dropLast]
      omega
    · exact hle
  · have hwhole := takeWhile_single hsingle
    rw [List.takeWhile_append, hwhole, if_pos rfl,
      withoutReturn_append fun _ => h.getLast?_ne, List.take_left,
      h.withoutReturn]

end Text

theorem Excerpt.ofLine_append (left right : List Char) (width length : Nat) :
    Excerpt.ofLine (left ++ right) width left.length length =
      ⟨left.drop (left.length - width), right.take length,
        (right.drop length).take width⟩ := by
  rw [ofLine_eq_around, Window.excerpt_around, List.take_left,
    List.drop_left, ← List.drop_drop, List.drop_left, List.rtake]

/-! ## Blocks -/

namespace Report

def excerpt (text : List Char) (maxWidth : Int) (diagnostic : Diagnostic) :
    Excerpt :=
  let place := position text diagnostic.span.start
  Excerpt.ofLine ((line? text place.1).getD []) maxWidth place.2
    diagnostic.span.length

/-- The lines of a block whose lower lines point at the part of the first line
that is marked: they are indented by just what is shown before it. -/
def pointerLines (color : Bool) (excerpt : Excerpt) (diagnostic : Diagnostic) :
    List (List Char) :=
  let indent := List.replicate excerpt.before.length ' '
  let marked :=
    if color then highlightOn.toList ++ excerpt.marked ++ highlightOff.toList
    else excerpt.marked
  [excerpt.before ++ marked ++ excerpt.after,
    indent ++ List.replicate diagnostic.span.length.toNat '^',
    indent ++ ['|'],
    indent ++ ('+' :: '-' :: '-' :: ' ' :: diagnostic.message.toList)]

theorem map_toList_blockLines {text : List Char} {style : ReportStyle}
    {diagnostic : Diagnostic}
    (hindent : (min style.maxWidth
        (position text diagnostic.span.start).2).toNat =
      (excerpt text style.maxWidth diagnostic).before.length) :
    (blockLines text style diagnostic).map String.toList =
      pointerLines style.color (excerpt text style.maxWidth diagnostic)
        diagnostic := by
  have hlines : blockLines text style diagnostic =
      let indent := run ' '
        (min style.maxWidth (position text diagnostic.span.start).2)
      [excerptLine style (excerpt text style.maxWidth diagnostic),
        indent ++ run '^' diagnostic.span.length, indent ++ "|",
        indent ++ "+-- " ++ diagnostic.message] := rfl
  rw [hlines]
  cases hcolor : style.color <;>
    simp [pointerLines, excerptLine, run, hcolor, hindent]

/-- An excerpt of a line with a place on it, for a span that begins there. -/
structure Shows (text : List Char) (span : Span) (excerpt : Excerpt) : Prop where
  length_eq : span.length = span.literal.length
  before : excerpt.before <:+ text.take span.start.toNat
  marked : excerpt.marked =
    withoutReturn (span.literal.toList.takeWhile (· ≠ '\n'))
  whole : '\n' ∉ span.literal.toList → excerpt.marked = span.literal.toList
  single : '\n' ∉ excerpt.before ++ excerpt.marked ++ excerpt.after

/-- Only at the end of the text nothing is shown from the place on, so the line
does not lose a carriage return before the place. -/
theorem withoutReturn_around {before segment after : List Char}
    (htrimmed : Trimmed segment) (hempty : segment = [] → after = [])
    (hreturn : (before ++ (segment ++ after)).getLast? ≠ some '\r') :
    let place := Surroundings.around before (segment ++ after)
    withoutReturn place.line = place.left ++ withoutReturn place.right := by
  refine withoutReturn_append ?_
  intro hright hleft
  cases segment with
  | cons first rest =>
      refine htrimmed.head first rfl ?_
      have hfeed : first = '\n' := by
        by_contra hne
        simp [Surroundings.around, hne] at hright
      rw [hfeed]
      decide
  | nil =>
      obtain ⟨opening, hbefore⟩ : before.rtakeWhile (· ≠ '\n') <:+ before :=
        List.rtakeWhile_suffix ..
      have hleft' : (before.rtakeWhile (· ≠ '\n')).getLast? = some '\r' := hleft
      rw [hempty rfl, List.append_nil, List.append_nil, ← hbefore,
        List.getLast?_append, hleft'] at hreturn
      exact hreturn rfl

theorem excerpt_surroundings {place : Surroundings}
    (hline : withoutReturn place.line = place.left ++ withoutReturn place.right)
    {diagnostic : Diagnostic} (hstart : diagnostic.span.start = place.offset)
    {length : Nat} (hlength : diagnostic.span.length = length) (width : Nat) :
    excerpt place.text width diagnostic =
      ⟨place.left.drop (place.left.length - width),
        (withoutReturn place.right).take length,
        ((withoutReturn place.right).drop length).take width⟩ := by
  rw [excerpt, hstart, Surroundings.position_text]
  simp only [Surroundings.line?_text, Option.getD_some, hline, hlength,
    Excerpt.ofLine_append]

theorem shows_of_trims {text : List Char} {diagnostic : Diagnostic}
    (h : diagnostic.span.Trims text) (hreturn : text.getLast? ≠ some '\r')
    (width : Nat) :
    Shows text diagnostic.span (excerpt text width diagnostic) ∧
      ∀ color, (blockLines text ⟨width, color⟩ diagnostic).map String.toList =
        pointerLines color (excerpt text width diagnostic) diagnostic := by
  obtain ⟨before, segment, after, rfl, hspan, htrimmed, hempty⟩ := h
  have hline := withoutReturn_around htrimmed hempty hreturn
  have hlength : diagnostic.span.length = segment.length := by
    rw [hspan, Span.length_covering]
  have hliteral : diagnostic.span.literal.toList = segment := by
    rw [hspan]
    exact String.toList_ofList
  have hstart : diagnostic.span.start =
      (Surroundings.around before (segment ++ after)).offset := by
    rw [Surroundings.offset_around, hspan]
    rfl
  have hexcerpt := excerpt_surroundings hline hstart hlength width
  have hlines := fun color => blockLines_surroundings _ ⟨width, color⟩ hstart
  rw [Surroundings.text_around] at hexcerpt hlines
  have htake : (before ++ (segment ++ after)).take
      diagnostic.span.start.toNat = before := by
    rw [hspan]
    exact List.take_left
  have hmarked : (excerpt (before ++ (segment ++ after)) width
      diagnostic).marked = withoutReturn (segment.takeWhile (· ≠ '\n')) := by
    rw [hexcerpt]
    exact shown_segment htrimmed after
  refine ⟨⟨?_, ?_, ?_, ?_, ?_⟩, ?_⟩
  · rw [hlength, ← String.length_toList, hliteral]
  · rw [htake, hexcerpt]
    exact (List.drop_suffix _ _).trans (List.rtakeWhile_suffix ..)
  · rw [hliteral, hmarked]
  · intro hsingle
    rw [hliteral] at hsingle ⊢
    rw [hmarked, takeWhile_single hsingle, htrimmed.withoutReturn]
  · rw [hexcerpt]
    simp only [List.mem_append, not_or]
    have hright := fun hmem =>
      (Surroundings.around before (segment ++ after)).right_single
        (withoutReturn_subset _ hmem)
    exact ⟨⟨fun hmem => Surroundings.left_single _ (List.mem_of_mem_drop hmem),
      fun hmem => hright (List.mem_of_mem_take hmem)⟩,
      fun hmem => hright (List.mem_of_mem_drop (List.mem_of_mem_take hmem))⟩
  · intro color
    refine map_toList_blockLines ?_
    have hposition := Surroundings.position_text
      (Surroundings.around before (segment ++ after))
    rw [Surroundings.text_around, ← hstart] at hposition
    rw [hposition, hexcerpt, List.length_drop]
    change (min (width : Int) _).toNat = _
    omega

theorem single_of_shows {text : List Char} {excerpt : Excerpt}
    {diagnostic : Diagnostic} (h : Shows text diagnostic.span excerpt)
    (hmessage : '\n' ∉ diagnostic.message.toList) (color : Bool) :
    ∀ line ∈ pointerLines color excerpt diagnostic, '\n' ∉ line := by
  have hsingle := h.single
  have hon : '\n' ∉ highlightOn.toList := by decide
  have hoff : '\n' ∉ highlightOff.toList := by decide
  simp only [List.mem_append, not_or] at hsingle
  cases color <;>
    simp [pointerLines, hsingle, hmessage, hon, hoff, List.mem_replicate]

end Report

/-- Every report on a source that does not end with a carriage return has four
lines for each diagnostic, in their order.  The lower ones are indented by the
characters that the first one shows before the span.  There the span stands, all
of it when it is on one line, over as many carets as it has characters, and the
message comes last.  Colours are put around the span and nowhere else. -/
theorem report_pointers (source : String)
    (hreturn : source.toList.getLast? ≠ some '\r')
    (hfaulty : (analyze source).diagnostics ≠ []) {maxWidth : Int}
    (hwidth : 0 ≤ maxWidth) :
    (∀ diagnostic ∈ (analyze source).diagnostics,
      Report.Shows source.toList diagnostic.span
        (Report.excerpt source.toList maxWidth diagnostic)) ∧
      ∀ color, List.splitOn '\n'
          ((analyze source).report ⟨maxWidth, color⟩).toList =
        (analyze source).diagnostics.flatMap fun diagnostic =>
          Report.pointerLines color
            (Report.excerpt source.toList maxWidth diagnostic) diagnostic := by
  obtain ⟨width, rfl⟩ := Int.eq_ofNat_of_zero_le hwidth
  have hreported := reported_trim source
  have hshown := fun diagnostic hmem => Report.shows_of_trims
    (hreported diagnostic hmem).1 hreturn width
  refine ⟨fun diagnostic hmem => (hshown diagnostic hmem).1, ?_⟩
  intro color
  let blocks := (analyze source).diagnostics.map
    (Report.blockLines source.toList ⟨width, color⟩)
  have hlines : blocks.flatten.map String.toList =
      (analyze source).diagnostics.flatMap fun diagnostic =>
        Report.pointerLines color
          (Report.excerpt source.toList width diagnostic) diagnostic := by
    rw [List.map_flatten, List.map_map, ← List.flatMap_def]
    exact List.flatMap_congr fun diagnostic hmem =>
      (hshown diagnostic hmem).2 color
  have hreport : (analyze source).report ⟨width, color⟩ =
      String.intercalate "\n" blocks.flatten := by
    rw [← intercalate_blocks (by simp [blocks, Report.blockLines]),
      List.map_map]
    rfl
  have hsingle : ∀ line ∈ blocks.flatten.map String.toList, '\n' ∉ line := by
    rw [hlines]
    intro line hline
    obtain ⟨diagnostic, hmem, hline⟩ := List.mem_flatMap.mp hline
    exact Report.single_of_shows (hshown diagnostic hmem).1
      (hreported diagnostic hmem).2 color line hline
  have hnonempty : blocks.flatten ≠ [] := by
    simp [blocks, Report.blockLines, List.exists_mem_of_ne_nil _ hfaulty]
  rw [hreport, splitOn_joined hnonempty
    (fun line hmem => hsingle _ (List.mem_map_of_mem hmem)), hlines]

theorem report_pointers_of_faulty :
    (analyze "x \x22a\nb\x22\t# (2\n").diagnostics ≠ [] ∧
      List.splitOn '\n'
          ((analyze "x \x22a\nb\x22\t# (2\n").report ⟨3, true⟩).toList =
        (analyze "x \x22a\nb\x22\t# (2\n").diagnostics.flatMap
          fun diagnostic => Report.pointerLines true
            (Report.excerpt "x \x22a\nb\x22\t# (2\n".toList 3 diagnostic)
            diagnostic := by
  have hfaulty : (analyze "x \x22a\nb\x22\t# (2\n").diagnostics ≠ [] := by
    decide +kernel
  have hreturn : "x \x22a\nb\x22\t# (2\n".toList.getLast? ≠ some '\r' := by
    decide
  obtain ⟨-, hreport⟩ := report_pointers "x \x22a\nb\x22\t# (2\n" hreturn hfaulty
    (by decide : (0 : Int) ≤ 3)
  exact ⟨hfaulty, hreport true⟩

end ExprLang

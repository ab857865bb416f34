import ExprLang.Proofs.Layout.Spacing
import ExprLang.Proofs.Lexicon.CarriageReturns
import ExprLang.Proofs.Report.Lines

/-!
# Reports on texts with carriage returns

With a carriage return before every line feed, all places of a text but those on
its first line move.  They stay on their lines and in their columns, and a line is
shown without its carriage return.  So such a text is read alike, and what is
reported of it is the same to the letter.
-/

namespace ExprLang

namespace Text

theorem count_feed_crlf (text : List Char) :
    (crlf text).count '\n' = text.count '\n' := by
  induction text with
  | nil => rfl
  | cons character rest ih =>
      by_cases hfeed : character = '\n'
      · subst hfeed
        simp [ih]
      · rw [crlf_cons hfeed, List.count_cons, List.count_cons, ih]

theorem ended_crlf {text : List Char} (h : Ended text) : Ended (crlf text) := by
  rcases text.eq_nil_or_concat with rfl | ⟨lines, last, rfl⟩
  · exact h
  · have hlast : last = '\n' := h last (by simp)
    subst hlast
    intro character hcharacter
    simpa [eq_comm] using hcharacter

namespace Surroundings

def crlf (place : Surroundings) : Surroundings where
  opening := Text.crlf place.opening
  left := place.left
  right := place.right ++ (Text.crlf place.closing).take 1
  closing := (Text.crlf place.closing).drop 1
  opening_ended := ended_crlf place.opening_ended
  left_single := place.left_single
  right_single := by
    have hright := place.right_single
    have hending := place.closing_ending
    cases hclosing : place.closing with
    | nil => simpa using hright
    | cons first rest =>
        have hfeed : first = '\n' := hending first (by simp [hclosing])
        simp [hfeed, hright]
  closing_ending := by
    have hending := place.closing_ending
    cases hclosing : place.closing with
    | nil => simp [Ending]
    | cons first rest =>
        have hfeed : first = '\n' := hending first (by simp [hclosing])
        simp [hfeed, Ending]

variable (place : Surroundings)

theorem text_crlf : place.crlf.text = Text.crlf place.text := by
  rw [text, text, line, line, crlf, crlf_append, crlf_append, crlf_append,
    crlf_eq_self place.left_single, crlf_eq_self place.right_single]
  simp only [List.append_assoc, List.take_append_drop]

theorem offset_crlf :
    place.crlf.offset = (Text.crlf (place.opening ++ place.left)).length := by
  rw [crlf_append, crlf_eq_self place.left_single, List.length_append]
  rfl

theorem index_crlf : place.crlf.index = place.index :=
  count_feed_crlf place.opening

theorem withoutReturn_line_crlf (hreturn : '\r' ∉ place.line) :
    withoutReturn place.crlf.line = withoutReturn place.line := by
  have hending := place.closing_ending
  rw [withoutReturn_eq_self hreturn]
  cases hclosing : place.closing with
  | nil =>
      have hline : place.crlf.line = place.line := by
        simp [line, crlf, hclosing]
      rw [hline, withoutReturn_eq_self hreturn]
  | cons first rest =>
      have hfeed : first = '\n' := hending first (by simp [hclosing])
      have hline : place.crlf.line = place.line ++ ['\r'] := by
        simp [line, crlf, hclosing, hfeed]
      rw [hline, withoutReturn_concat]

end Surroundings

end Text

open Text

/-! ## Spans that moved with their text -/

/-- The second span covers in the text with carriage returns what the first one
covers in the text. -/
def Span.Moved (text : List Char) (span other : Span) : Prop :=
  ∃ before after, text = before ++ after ∧ span.start = before.length ∧
    other.start = (crlf before).length ∧ other.length = span.length ∧
    other.literal = span.literal

namespace Span.Moved

variable {text : List Char} {span other : Span}

theorem length_eq (h : span.Moved text other) : other.length = span.length := by
  obtain ⟨before, after, -, -, -, hlength, -⟩ := h
  exact hlength

theorem literal_eq (h : span.Moved text other) :
    other.literal = span.literal := by
  obtain ⟨before, after, -, -, -, -, hliteral⟩ := h
  exact hliteral

theorem exists_surroundings (h : span.Moved text other) :
    ∃ place : Surroundings, place.text = text ∧ span.start = place.offset ∧
      other.start = place.crlf.offset := by
  obtain ⟨before, after, rfl, hstart, hother, -⟩ := h
  have hbefore : (Surroundings.around before after).opening ++
      (Surroundings.around before after).left = before :=
    List.rdropWhile_append_rtakeWhile
  refine ⟨.around before after, by simp, by simpa using hstart, ?_⟩
  rw [Surroundings.offset_crlf, hbefore]
  exact hother

theorem position_eq (h : span.Moved text other) :
    position (crlf text) other.start = position text span.start := by
  obtain ⟨place, rfl, hstart, hother⟩ := h.exists_surroundings
  rw [hstart, hother, ← place.text_crlf, Surroundings.position_text,
    Surroundings.position_text, place.index_crlf]
  rfl

theorem block_eq (h : span.Moved text other) (hreturn : '\r' ∉ text)
    (style : ReportStyle) {diagnostic moved : Diagnostic}
    (hspan : diagnostic.span = span) (hmoved : moved.span = other)
    (hmessage : moved.message = diagnostic.message) :
    Report.block (crlf text) style moved =
      Report.block text style diagnostic := by
  have hlength := h.length_eq
  obtain ⟨place, rfl, hstart, hother⟩ := h.exists_surroundings
  have hline : '\r' ∉ place.line := by
    intro hmem
    exact hreturn (by simp [Surroundings.text, hmem])
  rw [← place.text_crlf, Report.block, Report.block,
    Report.blockLines_surroundings place style (hspan ▸ hstart),
    Report.blockLines_surroundings place.crlf style (hmoved ▸ hother),
    place.withoutReturn_line_crlf hline, hspan, hmoved, hlength, hmessage]
  rfl

end Span.Moved

def Token.Moved (text : List Char) (token other : Token) : Prop :=
  token.unplaced = other.unplaced ∧ token.span.Moved text other.span

def Fault.Moved (text : List Char) (fault other : Fault) : Prop :=
  fault.message = other.message ∧ fault.span.Moved text other.span

/-! ## What is found in the text with carriage returns -/

namespace Piece

theorem covering_moved {text before segment after : List Char}
    (htext : text = before ++ (segment ++ after)) :
    (Span.covering before.length segment).Moved text
      (Span.covering (Text.crlf before).length segment) :=
  ⟨before, segment ++ after, htext, rfl, rfl, by simp, rfl⟩

theorem placed_crlf {text before : List Char} {pieces : List Piece}
    (honLine : ∀ piece ∈ pieces, piece.OnLine)
    (htext : text = before ++ pieces.flatMap Piece.text) :
    List.Forall₂ (Token.Moved text) (placeTokens before.length pieces)
        (placeTokens (Text.crlf before).length (pieces.flatMap crlf)) ∧
      List.Forall₂ (Fault.Moved text) (placeUnknown before.length pieces)
        (placeUnknown (Text.crlf before).length (pieces.flatMap crlf)) := by
  -- The text read so far fixes both offsets, and grows by one piece.
  induction pieces generalizing before with
  | nil => exact ⟨.nil, .nil⟩
  | cons piece pieces ih =>
      obtain ⟨hpiece, hpieces⟩ := List.forall_mem_cons.mp honLine
      rw [List.flatMap_cons] at htext
      have hothers := @ih (before ++ piece.text) hpieces
        (by rw [htext, List.append_assoc])
      rw [crlf_append, List.length_append, List.length_append] at hothers
      rw [List.flatMap_cons]
      cases piece with
      | blank character =>
          by_cases hfeed : character = '\n'
          · subst hfeed
            exact hothers
          · rw [Piece.text, crlf_cons hfeed] at hothers
            rw [crlf, if_neg hfeed]
            exact hothers
      | word kind word =>
          rw [Piece.text, crlf_eq_self hpiece] at hothers
          exact ⟨.cons ⟨rfl, covering_moved htext⟩ hothers.1, hothers.2⟩
      | unknown stretch =>
          rw [Piece.text, crlf_eq_self hpiece] at hothers
          exact ⟨hothers.1, .cons ⟨rfl, covering_moved htext⟩ hothers.2⟩

theorem onLine_of_tokens {source : String}
    (hstrings : ∀ token ∈ (tokenize source).tokens.body,
      token.kind = .stringLiteral → '\n' ∉ token.lexeme.toList) :
    ∀ piece ∈ pieces source.toList, piece.OnLine := by
  refine pieces_onLine ?_
  intro word hword
  have hbare : (token 0 .stringLiteral word).unplaced ∈
      (pieces source.toList).flatMap bareTokens :=
    List.mem_flatMap.mpr ⟨_, hword, List.mem_singleton_self _⟩
  rw [← map_unplaced_placeTokens 0] at hbare
  obtain ⟨other, hother, hsame⟩ := List.mem_map.mp hbare
  have hkind : other.kind = .stringLiteral := Token.kind_eq_of_unplaced hsame
  have hlexeme : other.lexeme = String.ofList word :=
    Token.lexeme_eq_of_unplaced hsame
  simpa [hlexeme] using hstrings other hother hkind

end Piece

section

variable {source text : String}

theorem tokenize_moved (htext : text.toList = crlf source.toList)
    (honLine : ∀ piece ∈ Piece.pieces source.toList, piece.OnLine) :
    List.Forall₂ (Token.Moved source.toList) (tokenize source).tokens.body
        (tokenize text).tokens.body ∧
      Token.Moved source.toList (tokenize source).tokens.terminal
        (tokenize text).tokens.terminal ∧
      List.Forall₂ (Fault.Moved source.toList) (tokenize source).faults
        (tokenize text).faults := by
  have hplaced := @Piece.placed_crlf source.toList [] _ honLine
    (by rw [Piece.flatMap_text_pieces, List.nil_append])
  rw [← Piece.pieces_crlf _ honLine, ← htext] at hplaced
  refine ⟨hplaced.1, ⟨rfl, ?_⟩, hplaced.2⟩
  have hend : source.toList = source.toList ++ ([] ++ []) := by simp
  simp only [tokenize, htext]
  exact Piece.covering_moved hend

theorem analyze_moved (htext : text.toList = crlf source.toList)
    (honLine : ∀ piece ∈ Piece.pieces source.toList, piece.OnLine) :
    (analyze text).statements.map Node.unplaced =
        (analyze source).statements.map Node.unplaced ∧
      List.Forall₂ (Fault.Moved source.toList)
        ((analyze source).lexicalFaults ++ (analyze source).grammarFaults)
        ((analyze text).lexicalFaults ++ (analyze text).grammarFaults) := by
  obtain ⟨hbody, hterminal, hfaults⟩ := tokenize_moved htext honLine
  have hsame : ∀ token other, Token.Moved source.toList token other →
      token.unplaced = other.unplaced := fun _ _ h => h.1
  have hread := Reading.statements_corresponds hsame hterminal hbody
  refine ⟨Node.map_unplaced_of_alike
    (hread.value.imp fun _ _ h => h.alike hsame), ?_⟩
  refine List.rel_append hfaults (hread.faults.imp ?_)
  intro fault other hfault
  obtain ⟨token, moved, ⟨-, hspan⟩, htoken, hmoved⟩ := hfault.span
  refine ⟨hfault.message hsame, ?_⟩
  rwa [htoken, hmoved]

end

/-- With carriage returns before its line feeds, a source without any has the same
tokens and trees up to places, and the same messages at the same lines and columns;
its reports are identical.  Only strings that hold a line feed have to be excluded. -/
theorem analyze_crlf (source text : String)
    (htext : text.toList = crlf source.toList) (hreturn : '\r' ∉ source.toList)
    (hstrings : ∀ token ∈ (tokenize source).tokens.body,
      token.kind = .stringLiteral → '\n' ∉ token.lexeme.toList) :
    (tokenize text).tokens.toList.map Token.unplaced =
        (tokenize source).tokens.toList.map Token.unplaced ∧
      (analyze text).statements.map Node.unplaced =
        (analyze source).statements.map Node.unplaced ∧
      List.Forall₂
        (fun diagnostic moved => moved.severity = diagnostic.severity ∧
          moved.message = diagnostic.message ∧
          moved.span.literal = diagnostic.span.literal ∧
          position text.toList moved.span.start =
            position source.toList diagnostic.span.start)
        (analyze source).diagnostics (analyze text).diagnostics ∧
      ∀ style, (analyze text).report style = (analyze source).report style := by
  have honLine := Piece.onLine_of_tokens hstrings
  obtain ⟨hbody, hterminal, -⟩ := tokenize_moved htext honLine
  obtain ⟨hstatements, hfaults⟩ := analyze_moved htext honLine
  refine ⟨?_, hstatements, ?_, ?_⟩
  · have htokens := List.rel_append hbody (.cons hterminal .nil)
    refine Eq.symm ?_
    rw [← List.forall₂_eq_eq_eq, List.forall₂_map_left_iff,
      List.forall₂_map_right_iff]
    exact htokens.imp fun _ _ h => h.1
  · refine List.forall₂_map_left_iff.mpr (List.forall₂_map_right_iff.mpr
      (hfaults.imp ?_))
    rintro fault moved ⟨hmessage, hspan⟩
    refine ⟨rfl, hmessage.symm, hspan.literal_eq, ?_⟩
    rw [htext]
    exact hspan.position_eq
  · intro style
    have hblocks : (analyze source).diagnostics.map
          (Report.block source.toList style) =
        (analyze text).diagnostics.map (Report.block text.toList style) := by
      rw [← List.forall₂_eq_eq_eq, Analysis.diagnostics, Analysis.diagnostics,
        List.map_map, List.map_map, List.forall₂_map_left_iff,
        List.forall₂_map_right_iff, htext]
      refine hfaults.imp ?_
      rintro fault moved ⟨hmessage, hspan⟩
      exact (hspan.block_eq hreturn style rfl rfl hmessage.symm).symm
    exact congrArg (String.intercalate "\n") hblocks.symm

theorem crlf_of_faulty :
    (analyze "x = 1 +;\n # \x22\n(2").diagnostics ≠ [] ∧
      (analyze "x = 1 +;\x0d\n # \x22\x0d\n(2").report .plain =
        (analyze "x = 1 +;\n # \x22\n(2").report .plain := by
  obtain ⟨-, -, -, hreport⟩ :=
    analyze_crlf "x = 1 +;\n # \x22\n(2" "x = 1 +;\x0d\n # \x22\x0d\n(2"
      (by decide +kernel) (by decide +kernel) (by decide +kernel)
  exact ⟨by decide +kernel, hreport .plain⟩

end ExprLang

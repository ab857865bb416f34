import ExprLang.Proofs.Lexicon.Lexemes

/-!
# Tokens and faults tile a text

What tokenizing makes of a text, tokens and faults together, covers the text
without overlap and leaves out blanks only.  `Tiles` says so of spans in the
order of the text, with one step for each way in which a scan goes on.
`Tiling` is what follows for the offsets of the spans and for the text.
-/

namespace ExprLang

namespace Lexicon

theorem ofSource_covering (before segment rest : List Char) :
    Span.ofSource (String.ofList (before ++ (segment ++ rest))) before.length
        (before.length + segment.length) =
      .ok (Span.covering before.length segment) := by
  have htake : (before ++ (segment ++ rest)).take
      (before.length + segment.length) = before ++ segment := by
    rw [← List.append_assoc, ← List.length_append, List.take_left]
  have hslice : Text.slice (before ++ (segment ++ rest)) before.length
      (before.length + segment.length) = segment := by
    rw [← Int.natCast_add, Text.slice_of_bounds _ (by omega) (by simp), htake,
      List.drop_left]
  rw [Span.ofSource, Span.make, dif_pos (by omega)]
  simp [Span.covering, hslice]

/-! ## Spans in the order of a text -/

inductive Tiles : Nat → List Char → List Span → Prop
  | done {offset : Nat} : Tiles offset [] []
  | blank {offset : Nat} {character : Char} {rest : List Char}
      {spans : List Span} (hblank : character ∈ blanks)
      (hrest : Tiles (offset + 1) rest spans) :
      Tiles offset (character :: rest) spans
  | span {offset : Nat} {segment rest : List Char} {spans : List Span}
      (hsegment : segment ≠ [])
      (hrest : Tiles (offset + segment.length) rest spans) :
      Tiles offset (segment ++ rest) (Span.covering offset segment :: spans)

def interleaved (gaps : List (List Char)) (spans : List Span) : List Char :=
  (gaps.zipWith (fun gap span => gap ++ span.literal.toList) spans).flatten

namespace Tiles

variable {offset : Nat} {text : List Char} {spans : List Span}

theorem bounds (h : Tiles offset text spans) :
    ∀ span ∈ spans, (offset : Int) ≤ span.start ∧ span.start < span.stop ∧
      span.stop ≤ offset + text.length := by
  induction h with
  | done => simp
  | blank hblank hrest ih =>
      intro span hspan
      have hbounds := ih span hspan
      simp only [List.length_cons]
      omega
  | @span offset segment rest spans hsegment hrest ih =>
      have hpos := List.length_pos_of_ne_nil hsegment
      intro span hspan
      simp only [List.length_append]
      rcases List.mem_cons.mp hspan with rfl | hspan
      · simp only [Span.covering]
        omega
      · have hbounds := ih span hspan
        omega

theorem ordered (h : Tiles offset text spans) :
    spans.Pairwise fun earlier later => earlier.stop ≤ later.start := by
  induction h with
  | done => exact .nil
  | blank hblank hrest ih => exact ih
  | span hsegment hrest ih =>
      refine List.pairwise_cons.mpr ⟨?_, ih⟩
      intro later hlater
      have hbounds := hrest.bounds later hlater
      simp only [Span.covering]
      omega

theorem blank_outside (h : Tiles offset text spans) {position : Nat}
    {character : Char} (hcharacter : text[position]? = some character)
    (houtside : ∀ span ∈ spans,
      ¬ (span.start ≤ (offset + position : Nat) ∧
        (offset + position : Nat) < span.stop)) :
    character ∈ blanks := by
  induction h generalizing position with
  | done => simp at hcharacter
  | blank hblank hrest ih =>
      cases position with
      | zero =>
          simp only [List.getElem?_cons_zero, Option.some.injEq] at hcharacter
          exact hcharacter ▸ hblank
      | succ position =>
          apply @ih position (by simpa using hcharacter)
          intro span hspan
          rw [Nat.add_right_comm, Nat.add_assoc]
          exact houtside span hspan
  | @span offset segment rest spans hsegment hrest ih =>
      have hlater : segment.length ≤ position := by
        have hfirst := houtside _ List.mem_cons_self
        simp only [Span.covering] at hfirst
        omega
      obtain ⟨distance, rfl⟩ := Nat.exists_eq_add_of_le hlater
      apply @ih distance
      · simpa [List.getElem?_append_right] using hcharacter
      · intro span hspan
        rw [Nat.add_assoc]
        exact houtside span (List.mem_cons_of_mem _ hspan)

theorem literal (h : Tiles offset text spans) (before : List Char)
    (hbefore : before.length = offset) :
    ∀ span ∈ spans,
      Span.ofSource (String.ofList (before ++ text)) span.start span.stop =
        .ok span := by
  induction h generalizing before with
  | done => simp
  | @blank offset character rest spans hblank hrest ih =>
      have hothers := ih (before ++ [character]) (by simp [hbefore])
      simpa using hothers
  | @span offset segment rest spans hsegment hrest ih =>
      intro span hspan
      rcases List.mem_cons.mp hspan with rfl | hspan
      · rw [← hbefore]
        exact ofSource_covering before segment rest
      · have hothers := ih (before ++ segment) (by simp [hbefore]) span hspan
        simpa using hothers

theorem rebuilt (h : Tiles offset text spans) :
    ∃ gaps last, gaps.length = spans.length ∧
      (∀ gap ∈ last :: gaps, ∀ character ∈ gap, character ∈ blanks) ∧
      text = interleaved gaps spans ++ last := by
  induction h with
  | done => exact ⟨[], [], by simp [interleaved]⟩
  | @blank offset character rest spans hblank hrest ih =>
      obtain ⟨gaps, last, hlength, hgaps, hrest⟩ := ih
      simp only [List.forall_mem_cons] at hgaps
      obtain ⟨hlast, hgaps⟩ := hgaps
      -- The blank begins the gap before the next span, or the last gap.
      cases gaps with
      | nil =>
          have hnone : spans = [] := by simpa using hlength.symm
          subst hnone
          refine ⟨[], character :: last, rfl, ?_, by simp [hrest, interleaved]⟩
          simpa [hblank] using hlast
      | cons gap gaps =>
          obtain ⟨span, others, rfl⟩ :=
            List.exists_cons_of_length_eq_add_one hlength.symm
          refine ⟨(character :: gap) :: gaps, last, by simpa using hlength, ?_,
            by simp [hrest, interleaved]⟩
          simp only [List.forall_mem_cons] at hgaps ⊢
          exact ⟨hlast, ⟨hblank, hgaps.1⟩, hgaps.2⟩
  | @span offset segment rest spans hsegment hrest ih =>
      obtain ⟨gaps, last, hlength, hgaps, hrest⟩ := ih
      refine ⟨[] :: gaps, last, by simp [hlength], ?_,
        by simp [hrest, interleaved, Span.covering]⟩
      simpa using hgaps

theorem eq_of_start_eq (h : Tiles offset text spans) {first second : Span}
    (hfirst : first ∈ spans) (hsecond : second ∈ spans)
    (hstart : first.start = second.start) : first = second := by
  induction h with
  | done => simp at hfirst
  | blank hblank hrest ih => exact ih hfirst hsecond
  | @span offset segment rest spans hsegment hrest ih =>
      have hpos := List.length_pos_of_ne_nil hsegment
      have hlater : ∀ span ∈ spans,
          (Span.covering offset segment).start < span.start := by
        intro span hspan
        have hbounds := hrest.bounds span hspan
        simp only [Span.covering]
        omega
      rcases List.mem_cons.mp hfirst with rfl | hfirst <;>
        rcases List.mem_cons.mp hsecond with rfl | hsecond
      · rfl
      · have := hlater second hsecond
        omega
      · have := hlater first hfirst
        omega
      · exact ih hfirst hsecond

theorem mergeSort_eq (h : Tiles offset text spans) {found : List Span}
    (hfound : found.Perm spans) :
    found.mergeSort (fun first second => first.start ≤ second.start) =
      spans := by
  refine List.Perm.eq_of_pairwise ?_ (List.pairwise_mergeSort ?_ ?_ found) ?_
    ((List.mergeSort_perm found _).trans hfound)
  -- No two spans share a start, so there is one sorted order.
  · intro first second hfirst hsecond hle hge
    simp only [decide_eq_true_eq] at hle hge
    exact h.eq_of_start_eq (hfound.mem_iff.mp (List.mem_mergeSort.mp hfirst))
      hsecond (by omega)
  · simp only [decide_eq_true_eq]
    omega
  · simp only [Bool.or_eq_true, decide_eq_true_eq]
    omega
  · refine h.ordered.imp_of_mem ?_
    intro earlier later hearlier _ hle
    have hbounds := h.bounds earlier hearlier
    simp only [decide_eq_true_eq]
    omega

end Tiles

end Lexicon

/-! ## The spans of a tokenization -/

namespace Piece

def placeSpans (offset : Nat) : List Piece → List Span
  | [] => []
  | .blank _ :: rest => placeSpans (offset + 1) rest
  | .word _ text :: rest =>
      Span.covering offset text :: placeSpans (offset + text.length) rest
  | .unknown text :: rest =>
      Span.covering offset text :: placeSpans (offset + text.length) rest

def IsProper : Piece → Prop
  | .blank character => character ∈ Lexicon.blanks
  | .word _ text => text ≠ []
  | .unknown text => text ≠ []

theorem isProper_ofWord {kind : TokenKind} {text : List Char}
    (htext : text ≠ []) : (ofWord kind text).IsProper := by
  unfold ofWord
  split <;> exact htext

theorem pieces_isProper (text : List Char) :
    ∀ piece ∈ pieces text, piece.IsProper := by
  fun_induction pieces text with
  | case1 => simp
  | case2 character rest hblank ih =>
      exact List.forall_mem_cons.mpr
        ⟨(Lexicon.isBlank_iff character).mp hblank, ih⟩
  | case3 character rest hblank found hfound ih =>
      have hpos := Lexicon.match?_length_pos hfound
      refine List.forall_mem_cons.mpr ⟨isProper_ofWord ?_, ih⟩
      simp
      omega
  | case4 character rest hblank hfound ih =>
      exact List.forall_mem_cons.mpr ⟨by simp [IsProper], ih⟩

theorem tiles_placeSpans {pieces : List Piece} (offset : Nat)
    (h : ∀ piece ∈ pieces, piece.IsProper) :
    Lexicon.Tiles offset (pieces.flatMap Piece.text)
      (placeSpans offset pieces) := by
  induction pieces generalizing offset with
  | nil => exact .done
  | cons piece pieces ih =>
      obtain ⟨hpiece, hothers⟩ := List.forall_mem_cons.mp h
      rw [List.flatMap_cons]
      cases piece with
      | blank character => exact .blank hpiece (ih _ hothers)
      | word kind text => exact .span hpiece (ih _ hothers)
      | unknown text => exact .span hpiece (ih _ hothers)

theorem placeTokens_sublist (offset : Nat) (pieces : List Piece) :
    ((placeTokens offset pieces).map Token.span).Sublist
      (placeSpans offset pieces) := by
  induction pieces generalizing offset with
  | nil => exact .slnil
  | cons piece pieces ih =>
      cases piece with
      | blank character => exact ih _
      | word kind text => exact (ih _).cons_cons _
      | unknown text => exact (ih _).cons _

theorem placeUnknown_sublist (offset : Nat) (pieces : List Piece) :
    ((placeUnknown offset pieces).map Fault.span).Sublist
      (placeSpans offset pieces) := by
  induction pieces generalizing offset with
  | nil => exact .slnil
  | cons piece pieces ih =>
      cases piece with
      | blank character => exact ih _
      | word kind text => exact (ih _).cons _
      | unknown text => exact (ih _).cons_cons _

theorem placed_perm (offset : Nat) (pieces : List Piece) :
    ((placeTokens offset pieces).map Token.span ++
        (placeUnknown offset pieces).map Fault.span).Perm
      (placeSpans offset pieces) := by
  induction pieces generalizing offset with
  | nil => exact .nil
  | cons piece pieces ih =>
      cases piece with
      | blank character => exact ih _
      | word kind text => exact (ih _).cons _
      | unknown text => exact List.perm_middle.trans ((ih _).cons _)

theorem lexeme_of_mem_placeTokens {offset : Nat} {pieces : List Piece} :
    ∀ token ∈ placeTokens offset pieces, token.lexeme = token.span.literal := by
  induction pieces generalizing offset with
  | nil => simp [placeTokens]
  | cons piece pieces ih =>
      cases piece with
      | blank character => exact ih
      | word kind text => exact List.forall_mem_cons.mpr ⟨rfl, ih⟩
      | unknown text => exact ih

end Piece

/-! ## Tilings -/

/-- The spans lie in the text one after another, each holding the text found
there, and only blanks lie between them. -/
structure Tiling (source : String) (spans : List Span) : Prop where
  nonempty : ∀ span ∈ spans, span.start < span.stop
  within : ∀ span ∈ spans, 0 ≤ span.start ∧ span.stop ≤ source.length
  ordered : spans.Pairwise fun earlier later => earlier.stop ≤ later.start
  blank : ∀ (position : Nat) (character : Char),
    source.toList[position]? = some character →
      (∀ span ∈ spans, ¬ (span.start ≤ position ∧ position < span.stop)) →
        character ∈ Lexicon.blanks
  literal : ∀ span ∈ spans,
    Span.ofSource source span.start span.stop = .ok span
  rebuilt : ∃ gaps last, gaps.length = spans.length ∧
    (∀ gap ∈ last :: gaps, ∀ character ∈ gap, character ∈ Lexicon.blanks) ∧
    source.toList = Lexicon.interleaved gaps spans ++ last

theorem Lexicon.Tiles.tiling {source : String} {spans : List Span}
    (h : Lexicon.Tiles 0 source.toList spans) : Tiling source spans where
  nonempty span hspan := (h.bounds span hspan).2.1
  within span hspan := by
    have hbounds := h.bounds span hspan
    simp only [String.length_toList] at hbounds
    omega
  ordered := h.ordered
  blank position character hcharacter houtside := by
    apply h.blank_outside hcharacter
    simpa using houtside
  literal := by simpa using h.literal [] rfl
  rebuilt := h.rebuilt

/-- Tokenizing adds to the bag and closes the tokens by one token for the end.
The other tokens and the added diagnostics, each in their order and merged by
start, tile the text. -/
theorem tokenize_tiles (bag : Bag) (source : String) :
    ∃ (tokens : List Token) (terminal : Token) (reported : List Diagnostic),
      (bag.tokenize source).1.toList = tokens ++ [terminal] ∧
      (bag.tokenize source).2.entries = bag.entries ++ reported ∧
      (∀ token ∈ tokens, token.kind ≠ .endOfText) ∧
      (terminal.kind = .endOfText ∧ terminal.lexeme = "" ∧
        terminal.span.start = source.length ∧
        terminal.span.stop = source.length) ∧
      (∀ token ∈ tokens, token.lexeme = token.span.literal) ∧
      ((tokens.map Token.span).Pairwise
        fun earlier later => earlier.stop ≤ later.start) ∧
      ((reported.map Diagnostic.span).Pairwise
        fun earlier later => earlier.stop ≤ later.start) ∧
      Tiling source
        ((tokens.map Token.span ++ reported.map Diagnostic.span).mergeSort
          fun first second => first.start ≤ second.start) := by
  have hspans : ((tokenize source).faults.map Fault.diagnostic).map
      Diagnostic.span = (tokenize source).faults.map Fault.span := by
    simp [Fault.diagnostic]
  have htiles := Piece.tiles_placeSpans 0 (Piece.pieces_isProper source.toList)
  rw [Piece.flatMap_text_pieces] at htiles
  refine ⟨(tokenize source).tokens.body, (tokenize source).tokens.terminal,
    (tokenize source).faults.map Fault.diagnostic, rfl, rfl, ?_, ?_,
    Piece.lexeme_of_mem_placeTokens, ?_, ?_, ?_⟩
  · intro token htoken
    exact (tokenize_isLexical source token htoken).kind_ne_endOfText
  · simp [tokenize, Token.endOfText, Span.covering, String.length_toList]
  · exact htiles.ordered.sublist (Piece.placeTokens_sublist 0 _)
  · rw [hspans]
    exact htiles.ordered.sublist (Piece.placeUnknown_sublist 0 _)
  · have hmerged := htiles.mergeSort_eq (Piece.placed_perm 0 _)
    rw [hspans, tokenize, hmerged]
    exact htiles.tiling

end ExprLang

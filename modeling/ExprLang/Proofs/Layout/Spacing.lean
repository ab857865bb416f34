import ExprLang.Analysis
import ExprLang.Proofs.Lexicon.Placement

/-!
# Lexemes spread by blanks

The lexemes of a source, written in order with any blanks between them, give
its tokens again, and nothing is unknown any more.  Every lexeme ends where a
blank stands, even a string, which may hold blanks.  As reading never looks at
places, the trees and the faults of reading correspond, whatever they are.
-/

namespace ExprLang

open Lexicon

def spread (gaps : List (List Char)) (tokens : List Token) : List Char :=
  (gaps.zipWith (fun gap token => gap ++ token.lexeme.toList) tokens).flatten

/-! ## Spread lexemes are found again -/

def Loose (text : List Char) : Prop :=
  ∀ character, text.head? = some character → character ∈ blanks

theorem loose_of_blanks {gap : List Char}
    (hgap : ∀ character ∈ gap, character ∈ blanks) : Loose gap :=
  fun character hhead => hgap character (List.mem_of_mem_head? hhead)

theorem loose_append {gap : List Char} (hne : gap ≠ [])
    (hgap : ∀ character ∈ gap, character ∈ blanks) (text : List Char) :
    Loose (gap ++ text) := by
  intro character hhead
  rw [List.head?_append_of_ne_nil _ hne] at hhead
  exact loose_of_blanks hgap character hhead

theorem Lexicon.IsLexeme.pieces_of_loose {kind : TokenKind}
    {word rest : List Char} (h : IsLexeme kind word) (hrest : Loose rest) :
    Piece.pieces (word ++ rest) = .word kind word :: Piece.pieces rest := by
  cases rest with
  | nil =>
      refine pieces_of_leadingWord ?_ h.admissible
      rw [List.append_nil]
      exact h.leadingWord
  | cons first rest => exact h.pieces blanks_separate (hrest first rfl) rest

theorem loose_spread {gaps : List (List Char)} {last : List Char}
    {tokens : List Token} (hlength : gaps.length = tokens.length)
    (hblank : ∀ gap ∈ last :: gaps, ∀ character ∈ gap, character ∈ blanks)
    (hgaps : ∀ gap ∈ gaps, gap ≠ []) : Loose (spread gaps tokens ++ last) := by
  obtain ⟨hlast, hothers⟩ := List.forall_mem_cons.mp hblank
  cases gaps with
  | nil => exact loose_of_blanks hlast
  | cons gap gaps =>
      obtain ⟨token, tokens, rfl⟩ :=
        List.exists_cons_of_length_eq_add_one hlength.symm
      rw [spread, List.zipWith_cons_cons, List.flatten_cons, List.append_assoc,
        List.append_assoc]
      exact loose_append (hgaps gap List.mem_cons_self)
        (hothers gap List.mem_cons_self) _

theorem pieces_of_only_blanks {gap : List Char}
    (hgap : ∀ character ∈ gap, character ∈ blanks) :
    Piece.pieces gap = gap.map Piece.blank := by
  have hpieces := Piece.pieces_of_blanks hgap []
  rw [List.append_nil, Piece.pieces_nil, List.append_nil] at hpieces
  exact hpieces

theorem pieces_spread {tokens : List Token} {gaps : List (List Char)}
    {last : List Char} (hlexical : ∀ token ∈ tokens, token.IsLexical)
    (hlength : gaps.length = tokens.length)
    (hblank : ∀ gap ∈ last :: gaps, ∀ character ∈ gap, character ∈ blanks)
    (hgaps : ∀ gap ∈ gaps.tail, gap ≠ []) :
    (∀ piece ∈ Piece.pieces (spread gaps tokens ++ last),
        piece.isKnown = true) ∧
      (Piece.pieces (spread gaps tokens ++ last)).flatMap Piece.bareTokens =
        tokens.map Token.unplaced := by
  induction tokens generalizing gaps with
  | nil =>
      obtain rfl := List.eq_nil_of_length_eq_zero hlength
      have hlast := pieces_of_only_blanks (hblank last List.mem_cons_self)
      simp [spread, hlast, List.flatMap_map, Piece.isKnown, Piece.bareTokens]
  | cons token tokens ih =>
      obtain ⟨gap, gaps, rfl⟩ := List.exists_cons_of_length_eq_add_one hlength
      rw [List.length_cons, List.length_cons, Nat.succ_inj] at hlength
      obtain ⟨htoken, htokens⟩ := List.forall_mem_cons.mp hlexical
      obtain ⟨hlast, hgap, hothers⟩ :
          (∀ character ∈ last, character ∈ blanks) ∧
            (∀ character ∈ gap, character ∈ blanks) ∧
              ∀ gap ∈ gaps, ∀ character ∈ gap, character ∈ blanks := by
        simpa using hblank
      have hrest : ∀ gap ∈ last :: gaps, ∀ character ∈ gap,
          character ∈ blanks := List.forall_mem_cons.mpr ⟨hlast, hothers⟩
      obtain ⟨hknown, hbare⟩ := ih htokens hlength hrest
        fun other hother => hgaps other (List.mem_of_mem_tail hother)
      have hpieces : Piece.pieces (spread (gap :: gaps) (token :: tokens) ++ last) =
          gap.map Piece.blank ++
            .word token.kind token.lexeme.toList ::
              Piece.pieces (spread gaps tokens ++ last) := by
        rw [← htoken.lexeme.pieces_of_loose (loose_spread hlength hrest hgaps),
          ← Piece.pieces_of_blanks hgap]
        simp [spread]
      rw [hpieces]
      refine ⟨?_, ?_⟩
      · exact List.forall_mem_append.mpr ⟨List.forall_mem_map.mpr fun _ _ => rfl,
          List.forall_mem_cons.mpr ⟨rfl, hknown⟩⟩
      · rw [List.flatMap_append, List.flatMap_cons, hbare,
          Piece.bareTokens_of_isLexical htoken]
        simp [List.flatMap_map, Piece.bareTokens]

/-! ## Tokens at the same place -/

/-- Tokens at the same place of two sequences that differ in spans only. -/
def Counterparts (tokens others : TokenSequence) (token other : Token) : Prop :=
  token.unplaced = other.unplaced ∧
    (token, other) ∈ tokens.toList.zip others.toList

theorem forall₂_counterparts {tokens others : TokenSequence}
    (hbody : tokens.body.map Token.unplaced = others.body.map Token.unplaced)
    (hterminal : tokens.terminal.unplaced = others.terminal.unplaced) :
    List.Forall₂ (Counterparts tokens others) tokens.body others.body ∧
      Counterparts tokens others tokens.terminal others.terminal := by
  rw [← List.forall₂_eq_eq_eq, List.forall₂_map_left_iff,
    List.forall₂_map_right_iff] at hbody
  have hzip : tokens.toList.zip others.toList =
      tokens.body.zip others.body ++ [(tokens.terminal, others.terminal)] :=
    List.zip_append hbody.length_eq
  refine ⟨List.forall₂_iff_zip.mpr ⟨hbody.length_eq, ?_⟩, hterminal, ?_⟩
  · intro token other hpair
    refine ⟨List.forall₂_zip hbody hpair, ?_⟩
    rw [hzip]
    exact List.mem_append_left _ hpair
  · rw [hzip]
    exact List.mem_append_right _ (List.mem_singleton_self _)

theorem analyze_corresponds {source text : String}
    (h : (tokenize source).tokens.body.map Token.unplaced =
      (tokenize text).tokens.body.map Token.unplaced) :
    let Same := Counterparts (tokenize source).tokens (tokenize text).tokens
    List.Forall₂ (Node.StatementCorresponds Same) (analyze source).statements
        (analyze text).statements ∧
      List.Forall₂ (Fault.Corresponds Same) (analyze source).grammarFaults
        (analyze text).grammarFaults := by
  obtain ⟨hbody, hterminal⟩ := forall₂_counterparts h rfl
  have hread := Reading.statements_corresponds (fun _ _ h => h.1) hterminal hbody
  exact ⟨hread.value, hread.faults⟩

/-- Whatever blanks stand between the lexemes of a source, they are its tokens
again without lexical faults.  The trees differ in spans only, the faults of
reading are said of tokens at the same places, and evaluation yields the same
values or is refused alike. -/
theorem analyze_spread (source text : String) {gaps : List (List Char)}
    {last : List Char}
    (htext : text.toList = spread gaps (tokenize source).tokens.body ++ last)
    (hlength : gaps.length = (tokenize source).tokens.body.length)
    (hblank : ∀ gap ∈ last :: gaps, ∀ character ∈ gap, character ∈ blanks)
    (hgaps : ∀ gap ∈ gaps.tail, gap ≠ []) :
    (tokenize text).faults = [] ∧
      (tokenize text).tokens.toList.map Token.unplaced =
        (tokenize source).tokens.toList.map Token.unplaced ∧
      (analyze text).statements.map Node.unplaced =
        (analyze source).statements.map Node.unplaced ∧
      List.Forall₂
        (fun fault other => fault.message = other.message ∧
          ∃ pair ∈ (tokenize source).tokens.toList.zip
              (tokenize text).tokens.toList,
            fault.span = pair.1.span ∧ other.span = pair.2.span)
        (analyze source).grammarFaults (analyze text).grammarFaults ∧
      SameOutcome ((analyze source).statements.flatMap (Node.preorder 0))
        ((analyze text).statements.flatMap (Node.preorder 0))
        (evaluate (analyze source).statements)
        (evaluate (analyze text).statements) ∧
      ∀ refusal other, evaluate (analyze source).statements = .error refusal →
        evaluate (analyze text).statements = .error other →
          other.explanation.message = refusal.explanation.message ∧
            other.explanation.hint = refusal.explanation.hint := by
  obtain ⟨hknown, hbare⟩ :=
    pieces_spread (tokenize_isLexical source) hlength hblank hgaps
  rw [← htext] at hknown hbare
  have hbody : (tokenize text).tokens.body.map Token.unplaced =
      (tokenize source).tokens.body.map Token.unplaced :=
    (Piece.map_unplaced_placeTokens 0 _).trans hbare
  obtain ⟨hstatements, hfaults⟩ := analyze_corresponds hbody.symm
  have halike := hstatements.imp fun _ _ h => h.alike fun _ _ hsame => hsame.1
  have houtcome := evaluate_alike halike
  refine ⟨Piece.placeUnknown_eq_nil hknown 0, ?_,
    Node.map_unplaced_of_alike halike, ?_, houtcome, ?_⟩
  · rw [TokenSequence.toList, TokenSequence.toList, List.map_append,
      List.map_append, hbody]
    rfl
  · refine hfaults.imp fun fault other h => ?_
    obtain ⟨token, token', ⟨-, hpair⟩, hspan, hspan'⟩ := h.span
    exact ⟨h.message fun _ _ hsame => hsame.1, _, hpair, hspan, hspan'⟩
  · intro refusal other hrefusal hother
    rw [hrefusal, hother] at houtcome
    exact houtcome.explanation

theorem spread_of_faulty :
    (tokenize "\x22a  b\x22-3#").faults ≠ [] ∧
      (tokenize "\n\x22a  b\x22\t-3").faults = [] ∧
      (analyze "\n\x22a  b\x22\t-3").statements.map Node.unplaced =
        (analyze "\x22a  b\x22-3#").statements.map Node.unplaced := by
  have hblank : ∀ gap ∈ [[], ['\n'], ['\t']], ∀ character ∈ gap,
      character ∈ blanks := by
    simp [blanks]
  obtain ⟨hfaults, -, hstatements, -⟩ :=
    analyze_spread "\x22a  b\x22-3#" "\n\x22a  b\x22\t-3" (by decide +kernel)
      (by decide +kernel) hblank (by simp)
  exact ⟨by decide +kernel, hfaults, hstatements⟩

end ExprLang

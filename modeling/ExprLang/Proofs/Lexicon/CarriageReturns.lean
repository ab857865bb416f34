import ExprLang.Proofs.Lexicon.Concatenation
import ExprLang.Proofs.Lexicon.Numerals

/-!
# Carriage returns before line feeds

A carriage return before every line feed of a text is one more blank, and
changes nothing else: all other pieces stay as they are, provided that no string
holds a line feed.  A string that does becomes longer, but stays a string, so no
word begins where none began before.
-/

namespace ExprLang

namespace Text

def crlf (text : List Char) : List Char :=
  text.flatMap fun character =>
    if character = '\n' then ['\r', '\n'] else [character]

@[simp] theorem crlf_nil : crlf [] = [] := rfl

@[simp] theorem crlf_feed (rest : List Char) :
    crlf ('\n' :: rest) = '\r' :: '\n' :: crlf rest := rfl

theorem crlf_cons {character : Char} (h : character ≠ '\n') (rest : List Char) :
    crlf (character :: rest) = character :: crlf rest := by
  simp [crlf, h]

@[simp] theorem crlf_append (first second : List Char) :
    crlf (first ++ second) = crlf first ++ crlf second :=
  List.flatMap_append

theorem crlf_eq_self {text : List Char} (h : '\n' ∉ text) : crlf text = text := by
  induction text with
  | nil => rfl
  | cons character rest ih =>
      rw [List.mem_cons, not_or] at h
      rw [crlf_cons (Ne.symm h.1), ih h.2]

theorem crlf_eq_take_append {text : List Char} {count : Nat}
    (h : '\n' ∉ text.take count) :
    crlf text = text.take count ++ crlf (text.drop count) := by
  conv_lhs => rw [← List.take_append_drop count text]
  rw [crlf_append, crlf_eq_self h]

end Text

namespace Lexicon

open Text

/-! ## Words of the text with carriage returns -/

theorem not_mem_blanks_of_word {kind : TokenKind} {word : List Char}
    (h : word ∈ wordsOf kind) (hkind : kind ≠ .stringLiteral) :
    ∀ character ∈ word, character ∉ blanks := by
  obtain ⟨first, rest, rfl⟩ :=
    List.exists_cons_of_ne_nil (ne_nil_of_mem_wordsOf h)
  refine List.forall_mem_cons.mpr
    ⟨?_, blanks_separate.not_mem_tail h hkind⟩
  intro hblank
  have hunblank := not_isBlank_of_word h
  rw [(isBlank_iff first).mpr hblank] at hunblank
  contradiction

theorem prefix_crlf_iff {word text : List Char}
    (hword : ∀ character ∈ word, character ∉ blanks) :
    word <+: crlf text ↔ word <+: text := by
  induction word generalizing text with
  | nil => simp
  | cons first word ih =>
      obtain ⟨hfirst, hothers⟩ := List.forall_mem_cons.mp hword
      cases text with
      | nil => simp
      | cons character rest =>
          by_cases hfeed : character = '\n'
          · have hreturn : first ≠ '\r' := by
              rintro rfl
              exact hfirst (by decide)
            have hfeed' : first ≠ '\n' := by
              rintro rfl
              exact hfirst (by decide)
            subst hfeed
            simp [List.cons_prefix_cons, hreturn, hfeed']
          · rw [crlf_cons hfeed, List.cons_prefix_cons, List.cons_prefix_cons,
              ih hothers]

theorem quotedLength?_plain {character : Char} (hquote : character ≠ '\x22')
    (hbackslash : character ≠ '\\') (rest : List Char) :
    quotedLength? (character :: rest) = (quotedLength? rest).map (· + 1) := by
  rw [quotedLength?.eq_def]
  split <;> simp_all

theorem quotedLength?_escape (escape : Char) (rest : List Char) :
    quotedLength? ('\\' :: escape :: rest) =
      if isEscapable escape then (quotedLength? rest).map (· + 2) else none := by
  rw [quotedLength?]

theorem isSome_quotedLength?_crlf (text : List Char) :
    (quotedLength? (crlf text)).isSome = (quotedLength? text).isSome := by
  fun_induction quotedLength? text with
  | case1 => rfl
  | case2 rest => rfl
  | case3 => rfl
  | case4 escape rest hescape ih =>
      have hfeed : escape ≠ '\n' := by
        rintro rfl
        contradiction
      rw [crlf_cons (by decide), crlf_cons hfeed, quotedLength?_escape,
        if_pos hescape]
      simpa using ih
  | case5 escape rest hescape =>
      rw [crlf_cons (by decide)]
      by_cases hfeed : escape = '\n'
      · subst hfeed
        rfl
      · rw [crlf_cons hfeed, quotedLength?_escape, if_neg hescape]
  | case6 character rest hquote hlast hescape ih =>
      have hbackslash : character ≠ '\\' := by
        rintro rfl
        cases rest with
        | nil => exact hlast rfl rfl
        | cons escape others => exact hescape escape others rfl rfl
      by_cases hfeed : character = '\n'
      · subst hfeed
        rw [crlf_feed, quotedLength?_plain (by decide) (by decide),
          quotedLength?_plain (by decide) (by decide)]
        simpa using ih
      · rw [crlf_cons hfeed, quotedLength?_plain hquote hbackslash]
        simpa using ih

theorem stringLength?_eq_none {character : Char} (h : character ≠ '\x22')
    (rest : List Char) : stringLength? (character :: rest) = none := by
  rw [stringLength?.eq_def]
  split <;> simp_all

theorem isSome_stringLength?_crlf (text : List Char) :
    (stringLength? (crlf text)).isSome = (stringLength? text).isSome := by
  cases text with
  | nil => rfl
  | cons character rest =>
      by_cases hquote : character = '\x22'
      · subst hquote
        rw [crlf_cons (by decide), stringLength?, stringLength?]
        simpa using isSome_quotedLength?_crlf rest
      · rw [stringLength?_eq_none hquote]
        by_cases hfeed : character = '\n'
        · subst hfeed
          rfl
        · rw [crlf_cons hfeed, stringLength?_eq_none hquote]

/-- Only a string may go on over blanks. -/
theorem beginsWord_iff (text : List Char) :
    BeginsWord text ↔
      (∃ kind word, (kind ≠ .stringLiteral ∧ word ∈ wordsOf kind) ∧
        word <+: text) ∨ (stringLength? text).isSome = true := by
  rw [Option.isSome_iff_exists]
  constructor
  · rintro ⟨kind, word, hinitial, hword⟩
    by_cases hkind : kind = .stringLiteral
    · subst hkind
      obtain ⟨rest, rfl⟩ := hinitial
      exact .inr ⟨_, stringLength?_append hword rest⟩
    · exact .inl ⟨kind, word, ⟨hkind, hword⟩, hinitial⟩
  · rintro (⟨kind, word, ⟨-, hword⟩, hinitial⟩ | ⟨length, hlength⟩)
    · exact ⟨kind, word, hinitial, hword⟩
    · exact ⟨.stringLiteral, text.take length, List.take_prefix length text,
        (stringLength?_measures.sound hlength).2⟩

theorem beginsWord_crlf_iff (text : List Char) :
    BeginsWord (crlf text) ↔ BeginsWord text := by
  have hother : ∀ kind word, kind ≠ .stringLiteral ∧ word ∈ wordsOf kind →
      (word <+: crlf text ↔ word <+: text) := by
    rintro kind word ⟨hkind, hword⟩
    exact prefix_crlf_iff (not_mem_blanks_of_word hword hkind)
  rw [beginsWord_iff, beginsWord_iff, isSome_stringLength?_crlf]
  exact or_congr_left (exists₂_congr fun kind word =>
    and_congr_right (hother kind word))

theorem isSome_match?_crlf (text : List Char) :
    (match? (crlf text)).isSome = (match? text).isSome := by
  rw [Bool.eq_iff_iff, ← Option.ne_none_iff_isSome, ← Option.ne_none_iff_isSome,
    ne_eq, ne_eq, match?_eq_none_iff, match?_eq_none_iff, beginsWord_crlf_iff]

theorem LeadingWord.crlf {text word : List Char} {kind : TokenKind}
    (h : LeadingWord text kind word) (hword : '\n' ∉ word) :
    LeadingWord (crlf text) kind word := by
  obtain ⟨rest, hrest⟩ := h.isPrefix
  have hinitial : word <+: Text.crlf text := by
    rw [← hrest, crlf_append, crlf_eq_self hword]
    exact List.prefix_append word _
  refine ⟨hinitial, h.mem, ?_, h.preferred⟩
  intro other otherKind hother hmem
  -- A string may be longer than it was, but the leading word would be one too.
  by_cases hkind : otherKind = .stringLiteral
  · subst hkind
    exact (length_eq_of_string h.mem hmem hinitial hother).le
  · have hunblank := not_mem_blanks_of_word hmem hkind
    exact h.longest other otherKind ((prefix_crlf_iff hunblank).mp hother) hmem

end Lexicon

theorem Token.IsLexical.unbroken {token : Token} (h : token.IsLexical)
    (hkind : token.kind ≠ .stringLiteral) : '\n' ∉ token.lexeme.toList := by
  intro hmem
  exact Lexicon.not_mem_blanks_of_word h.lexeme.mem hkind '\n' hmem (by decide)

theorem not_mem_toString {character : Char} (h : character ∈ Lexicon.blanks)
    (number : Int) : character ∉ (toString number).toList := by
  have hword : (toString number).toList ∈ Lexicon.wordsOf .integerLiteral :=
    Lexicon.toString_mem_integers number
  exact fun hmem =>
    Lexicon.not_mem_blanks_of_word hword (by decide) character hmem h

theorem toString_unbroken (number : Int) : '\n' ∉ (toString number).toList :=
  not_mem_toString (by decide) number

namespace Piece

open Lexicon Text

def crlf : Piece → List Piece
  | blank character =>
      if character = '\n' then [blank '\r', blank '\n'] else [blank character]
  | piece => [piece]

def OnLine : Piece → Prop
  | blank _ => True
  | word _ text => '\n' ∉ text
  | unknown text => '\n' ∉ text

theorem unknownLength_crlf (text : List Char) :
    unknownLength (Text.crlf text) = unknownLength text := by
  induction text with
  | nil => rfl
  | cons character rest ih =>
      by_cases hfeed : character = '\n'
      · subst hfeed
        rfl
      · have hmatch := isSome_match?_crlf (character :: rest)
        rw [crlf_cons hfeed] at hmatch ⊢
        rw [unknownLength, unknownLength, hmatch, ih]

theorem onLine_ofWord {kind : TokenKind} {text : List Char} :
    (ofWord kind text).OnLine ↔ '\n' ∉ text := by
  unfold ofWord
  split <;> rfl

theorem pieces_crlf (text : List Char)
    (h : ∀ piece ∈ pieces text, piece.OnLine) :
    pieces (Text.crlf text) = (pieces text).flatMap crlf := by
  fun_induction pieces text with
  | case1 => exact pieces_nil
  | case2 character rest hblank ih =>
      have hrest := ih (List.forall_mem_cons.mp h).2
      by_cases hfeed : character = '\n'
      · subst hfeed
        rw [crlf_feed, pieces_of_blank _ (by decide), pieces_of_blank _ (by decide),
          hrest]
        rfl
      · rw [crlf_cons hfeed, pieces_of_blank _ hblank, hrest, List.flatMap_cons,
          crlf, if_neg hfeed]
        rfl
  | case3 character rest hblank found hfound ih =>
      obtain ⟨hword, hothers⟩ := List.forall_mem_cons.mp h
      rw [onLine_ofWord] at hword
      have hleading := (match?_leadingWord hfound).crlf hword
      -- The word is on one line, so what changes comes after it.
      rw [crlf_eq_take_append hword] at hleading ⊢
      rw [pieces_eq_ofWord hleading, ih hothers, List.flatMap_cons]
      unfold ofWord
      split <;> rfl
  | case4 character rest hblank hnone ih =>
      obtain ⟨hstretch, hothers⟩ := List.forall_mem_cons.mp h
      rw [OnLine, List.mem_cons, not_or] at hstretch
      have hfeed := Ne.symm hstretch.1
      have hmatch : match? (character :: Text.crlf rest) = none := by
        rw [← crlf_cons hfeed, ← Option.not_isSome_iff_eq_none,
          isSome_match?_crlf, hnone]
        simp
      have hlength : (rest.take (unknownLength rest)).length =
          unknownLength rest :=
        List.length_take_of_le (unknownLength_spec rest).1
      rw [crlf_cons hfeed, pieces_of_no_match (by simpa using hblank) hmatch,
        unknownLength_crlf, crlf_eq_take_append hstretch.2, List.take_left' hlength,
        List.drop_left' hlength, ih hothers]
      rfl

theorem not_mem_blanks_of_unknown (text : List Char) :
    ∀ character ∈ text.take (unknownLength text), character ∉ blanks := by
  induction text with
  | nil => simp
  | cons character rest ih =>
      rw [unknownLength]
      split
      case isTrue => simp
      case isFalse hunknown =>
        refine List.forall_mem_cons.mpr ⟨?_, ih⟩
        intro hblank
        exact hunknown (by simp [(isBlank_iff character).mpr hblank])

theorem pieces_onLine {text : List Char}
    (h : ∀ word, .word .stringLiteral word ∈ pieces text → '\n' ∉ word) :
    ∀ piece ∈ pieces text, piece.OnLine := by
  fun_induction pieces text with
  | case1 => simp
  | case2 character rest hblank ih =>
      exact List.forall_mem_cons.mpr
        ⟨trivial, ih fun word hword => h word (List.mem_cons_of_mem _ hword)⟩
  | case3 character rest hblank found hfound ih =>
      refine List.forall_mem_cons.mpr
        ⟨onLine_ofWord.mpr ?_, ih fun word hword => h word (List.mem_cons_of_mem _ hword)⟩
      have hmem := (match?_leadingWord hfound).mem
      by_cases hkind : found.kind = .stringLiteral
      · have hadmissible : ∀ word, isAdmissible .stringLiteral word = true :=
          fun _ => rfl
        exact h _ (by simp [hkind, ofWord, hadmissible])
      · intro hfeed
        exact not_mem_blanks_of_word hmem hkind _ hfeed (by decide)
  | case4 character rest hblank hnone ih =>
      refine List.forall_mem_cons.mpr
        ⟨?_, ih fun word hword => h word (List.mem_cons_of_mem _ hword)⟩
      have hfeed : '\n' ≠ character := by
        rintro rfl
        exact hblank rfl
      rw [OnLine, List.mem_cons, not_or]
      exact ⟨hfeed, fun hmem =>
        not_mem_blanks_of_unknown rest _ hmem (by decide)⟩

end Piece

end ExprLang

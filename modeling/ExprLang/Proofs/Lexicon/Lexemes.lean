import ExprLang.Proofs.Lexicon.MaximalMunch

/-!
# Lexemes

A lexeme is a word together with the kind it has as a token.  All tokens of a
text are lexical: they carry lexemes with their values.  Conversely a lexeme
is found again wherever a separating character follows it: only strings go on
over such a character, and no string begins another one.
-/

namespace ExprLang

namespace Lexicon

structure IsLexeme (kind : TokenKind) (word : List Char) : Prop where
  mem : word ∈ wordsOf kind
  preferred : ∀ fixed ∈ fixedKinds, word ∈ wordsOf fixed → kind = fixed
  admissible : isAdmissible kind word = true

theorem isLexeme_of_punctuation {mark : TokenKind}
    (h : mark ∈ TokenKind.punctuation) : IsLexeme mark mark.name.toList := by
  have hfixed : mark ∈ fixedKinds := List.mem_append_right _ h
  refine ⟨?_, ?_, ?_⟩
  · rw [wordsOf_of_fixed hfixed]
    exact mem_spelling.mpr rfl
  · intro fixed hother hspelled
    rw [wordsOf_of_fixed hother, mem_spelling] at hspelled
    exact name_injective hspelled
  · rw [isAdmissible_iff]
    rintro rfl
    exact absurd h (by decide)

theorem isLexeme_of_name {word : List Char} (h : word ∈ names)
    (hkeyword : ∀ keyword ∈ TokenKind.keywords, word ≠ keyword.name.toList) :
    IsLexeme .identifier word := by
  refine ⟨h, ?_, rfl⟩
  intro fixed hfixed hspelled
  rw [wordsOf_of_fixed hfixed, mem_spelling] at hspelled
  rcases List.mem_append.mp hfixed with hmem | hmark
  · exact absurd hspelled (hkeyword fixed hmem)
  · rw [hspelled] at h
    exact absurd h
      (nameLength?_measures.notMem_of_none (punctuation_scans fixed hmark))

/-! ## Lexemes of a text -/

theorem eq_word_of_judged {segment : Piece} {kind : TokenKind}
    {word : List Char} (h : judged segment = .word kind word) :
    segment = .word kind word ∧ isAdmissible kind word = true := by
  cases segment with
  | blank character => cases h
  | unknown stretch => cases h
  | word otherKind other =>
      simp only [judged, Piece.ofWord] at h
      split at h
      · rename_i hadmissible
        cases h
        exact ⟨rfl, hadmissible⟩
      · cases h

theorem Segmentation.leadingWord {text : List Char} {segments : List Piece}
    (h : Segmentation text segments) {kind : TokenKind} {word : List Char}
    (hword : .word kind word ∈ segments) :
    ∃ rest, LeadingWord rest kind word := by
  induction segments generalizing text with
  | nil => simp at hword
  | cons segment segments ih =>
      rcases List.mem_cons.mp hword with rfl | hword
      · exact ⟨text, h.1.2⟩
      · exact ih h.2 hword

theorem isLexeme_of_mem_pieces {text : List Char} {kind : TokenKind}
    {word : List Char} (h : .word kind word ∈ Piece.pieces text) :
    IsLexeme kind word := by
  obtain ⟨segments, hsegments, hpieces⟩ := exists_segmentation text
  rw [hpieces] at h
  obtain ⟨segment, hsegment, hjudged⟩ := List.mem_map.mp h
  obtain ⟨rfl, hadmissible⟩ := eq_word_of_judged hjudged
  obtain ⟨rest, hleading⟩ := hsegments.leadingWord hsegment
  exact ⟨hleading.mem, hleading.preferred, hadmissible⟩

end Lexicon

/-- The token carries a lexeme of its kind and the value of it. -/
structure Token.IsLexical (token : Token) : Prop where
  lexeme : Lexicon.IsLexeme token.kind token.lexeme.toList
  value : token.value = Lexicon.value token.kind token.lexeme.toList

theorem Token.IsLexical.kind_ne_endOfText {token : Token}
    (h : token.IsLexical) : token.kind ≠ .endOfText := by
  intro hkind
  have hmem := h.lexeme.mem
  rw [hkind] at hmem
  exact Language.notMem_zero _ hmem

theorem Lexicon.IsLexeme.isLexical {kind : TokenKind} {word : List Char}
    (h : IsLexeme kind word) (offset : Nat) :
    (Piece.token offset kind word).IsLexical :=
  ⟨by simpa [Piece.token] using h, by simp [Piece.token]⟩

theorem isLexical_of_mem_placeTokens {offset : Nat} {pieces : List Piece}
    (hpieces : ∀ kind word, .word kind word ∈ pieces →
      Lexicon.IsLexeme kind word) :
    ∀ token ∈ Piece.placeTokens offset pieces, token.IsLexical := by
  induction pieces generalizing offset with
  | nil => simp [Piece.placeTokens]
  | cons piece pieces ih =>
      have hothers : ∀ kind word, .word kind word ∈ pieces →
          Lexicon.IsLexeme kind word :=
        fun kind word hword => hpieces kind word (List.mem_cons_of_mem _ hword)
      cases piece with
      | blank character => exact ih hothers
      | unknown stretch => exact ih hothers
      | word kind word =>
          have hlexeme := hpieces kind word List.mem_cons_self
          exact List.forall_mem_cons.mpr ⟨hlexeme.isLexical offset, ih hothers⟩

theorem tokenize_isLexical (source : String) :
    ∀ token ∈ (tokenize source).tokens.body, token.IsLexical :=
  isLexical_of_mem_placeTokens fun _ _ => Lexicon.isLexeme_of_mem_pieces

namespace Lexicon

/-! ## Separating characters -/

def delimiters : List Char := [' ', '\n', ';', ')']

def BeginsDelimiter (text : List Char) : Prop :=
  ∃ delimiter ∈ delimiters, ∃ rest, text = delimiter :: rest

theorem not_mem_of_accepted {stops : List Char} {accepts : Char → Bool}
    {word : List Char} (hnone : stops.any accepts = false)
    (hword : ∀ character ∈ word, accepts character = true) :
    ∀ character ∈ word, character ∉ stops :=
  fun character hcharacter hstop =>
    List.any_eq_false.mp hnone character hstop (hword character hcharacter)

def isNumeral (character : Char) : Bool :=
  character.isDigit || isFloatMark character || character = '+' ||
    character = '-'

theorem digits_numeral {word : List Char}
    (h : ∀ character ∈ word, character.isDigit = true) :
    ∀ character ∈ word, isNumeral character = true := by
  intro character hcharacter
  simp [isNumeral, h character hcharacter]

theorem integers_numeral {word : List Char} (h : word ∈ integers) :
    ∀ character ∈ word, isNumeral character = true := by
  rcases mem_integers.mp h with hnumber | ⟨number, hnumber, rfl⟩
  · exact digits_numeral (mem_digits.mp hnumber).2
  · exact List.forall_mem_cons.mpr
      ⟨by decide, digits_numeral (mem_digits.mp hnumber).2⟩

theorem exponents_numeral {word : List Char} (h : word ∈ exponents) :
    ∀ character ∈ word, isNumeral character = true := by
  obtain ⟨marker, sign, number, hmarker, hsign, hnumber, rfl⟩ :=
    mem_exponents.mp h
  have hnumerals := digits_numeral (mem_digits.mp hnumber).2
  refine List.forall_mem_cons.mpr ⟨?_, List.forall_mem_append.mpr ⟨?_, hnumerals⟩⟩
  · rcases hmarker with rfl | rfl <;> decide
  · rcases hsign with rfl | rfl | rfl <;> simp [isNumeral]

theorem floats_numeral {word : List Char} (h : word ∈ floats) :
    ∀ character ∈ word, isNumeral character = true := by
  rcases mem_floats.mp h with
    ⟨whole, fraction, exponent, hwhole, hfraction, hexponent, rfl⟩ |
      ⟨whole, hwhole, exponent, hexponent, rfl⟩
  · refine List.forall_mem_append.mpr ⟨digits_numeral hwhole,
      List.forall_mem_cons.mpr ⟨by decide, List.forall_mem_append.mpr
        ⟨digits_numeral (mem_digits.mp hfraction).2, ?_⟩⟩⟩
    rcases hexponent with rfl | hexponent
    · simp
    · exact exponents_numeral hexponent
  · exact List.forall_mem_append.mpr
      ⟨digits_numeral (mem_digits.mp hwhole).2, exponents_numeral hexponent⟩

theorem isNamePart_of_mem_names {word : List Char} (h : word ∈ names) :
    ∀ character ∈ word, isNamePart character = true := by
  obtain ⟨first, rest, rfl, hfirst, hrest⟩ := mem_names.mp h
  exact List.forall_mem_cons.mpr ⟨by simp [isNamePart, hfirst], hrest⟩

/-- No word but a string holds one of the characters after its first. -/
structure Separates (stops : List Char) : Prop where
  names : stops.any isNamePart = false
  numerals : stops.any isNumeral = false
  fixed : ∀ fixed ∈ fixedKinds,
    (fixed.name.toList.tail.any fun character => character ∈ stops) = false

theorem delimiters_separate : Separates delimiters :=
  ⟨by decide, by decide, by decide⟩

theorem blanks_separate : Separates blanks :=
  ⟨by decide, by decide, by decide⟩

theorem Separates.not_mem_tail {stops : List Char} (hstops : Separates stops)
    {kind : TokenKind} {word : List Char} (h : word ∈ wordsOf kind)
    (hkind : kind ≠ .stringLiteral) :
    ∀ character ∈ word.tail, character ∉ stops := by
  have hinner : (∀ character ∈ word, character ∉ stops) →
      ∀ character ∈ word.tail, character ∉ stops :=
    fun hall character hmem => hall character (List.mem_of_mem_tail hmem)
  rcases mem_openKinds_of_mem h with hfixed | hopen
  · rw [wordsOf_of_fixed hfixed, mem_spelling] at h
    rw [h]
    simpa using hstops.fixed kind hfixed
  · simp only [openKinds, List.mem_cons, List.not_mem_nil, or_false] at hopen
    rcases hopen with rfl | rfl | rfl | rfl
    · exact hinner (not_mem_of_accepted hstops.names (isNamePart_of_mem_names h))
    · exact hinner (not_mem_of_accepted hstops.numerals (integers_numeral h))
    · exact hinner (not_mem_of_accepted hstops.numerals (floats_numeral h))
    · contradiction

theorem start_cases {kind : TokenKind} {first : Char} {rest : List Char}
    (h : first :: rest ∈ wordsOf kind) :
    (kind ∈ fixedKinds ∧ kind.name.toList = first :: rest) ∨
      Starts kind first := by
  rcases mem_openKinds_of_mem h with hfixed | hopen
  · rw [wordsOf_of_fixed hfixed, mem_spelling] at h
    exact .inl ⟨hfixed, h.symm⟩
  · obtain ⟨_, _, hcons, hstart⟩ := exists_start hopen h
    rw [← (List.cons.inj hcons).1] at hstart
    exact .inr hstart

theorem fixed_start : ∀ fixed ∈ fixedKinds,
    fixed.name.toList.head? ≠ some '\x22' ∧
      (fixed.name.toList.head? = some '(' → fixed.name.toList.tail = []) ∧
        (blanks.any fun blank => fixed.name.toList.head? = some blank) =
          false := by
  decide

theorem stringLiteral_of_quote {kind : TokenKind} {rest : List Char}
    (h : '\x22' :: rest ∈ wordsOf kind) : kind = .stringLiteral := by
  rcases start_cases h with ⟨hfixed, hname⟩ | hstart
  · have hhead := (fixed_start kind hfixed).1
    rw [hname] at hhead
    exact absurd rfl hhead
  · exact kind_of_quote hstart

theorem not_starts_opening (kind : TokenKind) : ¬ Starts kind '(' := by
  have hnumber : ¬ IsNumberStart '(' := by
    rintro (h | h | h) <;> revert h <;> decide
  cases kind with
  | integerLiteral => exact hnumber
  | floatLiteral => exact hnumber
  | _ => simp [Starts, isNameStart]

theorem eq_nil_of_opening {kind : TokenKind} {rest : List Char}
    (h : '(' :: rest ∈ wordsOf kind) : rest = [] := by
  rcases start_cases h with ⟨hfixed, hname⟩ | hstart
  · have htail := (fixed_start kind hfixed).2.1
    rw [hname] at htail
    exact htail rfl
  · exact absurd hstart (not_starts_opening kind)

theorem blanks_unused :
    blanks.any isNameStart = false ∧ blanks.any isNumeral = false ∧
      '\x22' ∉ blanks := by
  decide

theorem not_starts_blank {kind : TokenKind} {blank : Char}
    (h : blank ∈ blanks) : ¬ Starts kind blank := by
  obtain ⟨hnotName, hnotNumeral, hnotQuote⟩ := blanks_unused
  have hnumber : ¬ IsNumberStart blank := by
    intro hstart
    have hnumeral : isNumeral blank = true := by
      rcases hstart with hdigit | rfl | rfl
      · simp [isNumeral, hdigit]
      · rfl
      · rfl
    exact List.any_eq_false.mp hnotNumeral blank h hnumeral
  cases kind with
  | identifier => exact List.any_eq_false.mp hnotName blank h
  | integerLiteral => exact hnumber
  | floatLiteral => exact hnumber
  | stringLiteral =>
      rintro rfl
      exact hnotQuote h
  | _ => exact id

theorem not_isBlank_of_word {kind : TokenKind} {first : Char}
    {rest : List Char} (h : first :: rest ∈ wordsOf kind) :
    isBlank first = false := by
  by_contra hblank
  rw [Bool.not_eq_false, isBlank_iff] at hblank
  rcases start_cases h with ⟨hfixed, hname⟩ | hstart
  · have hhead := (fixed_start kind hfixed).2.2
    rw [hname] at hhead
    exact List.any_eq_false.mp hhead first hblank (by simp)
  · exact not_starts_blank hblank hstart

/-! ## Lexemes are found again -/

theorem IsLexeme.leadingWord {kind : TokenKind} {word : List Char}
    (h : IsLexeme kind word) : LeadingWord word kind word :=
  ⟨List.prefix_rfl, h.mem, fun _ _ hinitial _ => hinitial.length_le, h.preferred⟩

theorem Separates.stringLiteral_of_crossing {stops : List Char}
    (hstops : Separates stops) {stop : Char} (hstop : stop ∈ stops)
    {text more : List Char} (htext : text ≠ []) {kind : TokenKind}
    (h : text ++ stop :: more ∈ wordsOf kind) : kind = .stringLiteral := by
  by_contra hkind
  obtain ⟨first, initial, rfl⟩ := List.exists_cons_of_ne_nil htext
  exact hstops.not_mem_tail h hkind stop (by simp) hstop

theorem prefix_append_cons_cases {other text rest : List Char} {stop : Char}
    (h : other <+: text ++ stop :: rest) :
    other <+: text ∨ ∃ more, other = text ++ stop :: more := by
  rcases Nat.lt_or_ge text.length other.length with hlt | hle
  · obtain ⟨beyond, rfl⟩ := List.prefix_of_prefix_length_le
      (List.prefix_append text (stop :: rest)) h hlt.le
    cases beyond with
    | nil => simp at hlt
    | cons character more =>
        rw [List.prefix_append_right_inj, List.cons_prefix_cons] at h
        exact .inr ⟨more, by rw [h.1]⟩
  · exact .inl (List.prefix_of_prefix_length_le h (List.prefix_append text _) hle)

theorem length_eq_of_string {text word other : List Char} {kind : TokenKind}
    (hmem : word ∈ wordsOf kind) (hstring : other ∈ strings)
    (hword : word <+: text) (hother : other <+: text) :
    other.length = word.length := by
  obtain ⟨rest, rfl⟩ := hother
  obtain ⟨more, hmore⟩ := hword
  have hlength := stringLength?_append hstring rest
  obtain ⟨first, initial, rfl⟩ :=
    List.exists_cons_of_ne_nil (ne_nil_of_mem_wordsOf hmem)
  obtain ⟨body, rfl⟩ := strings_start hstring
  have hquote : first = '\x22' := (List.cons.inj hmore).1
  subst hquote
  obtain rfl := stringLiteral_of_quote hmem
  rw [← hmore, stringLength?_append hmem more] at hlength
  exact (Option.some.inj hlength).symm

theorem LeadingWord.append {stops : List Char} (hstops : Separates stops)
    {stop : Char} (hstop : stop ∈ stops) {kind : TokenKind}
    {text word : List Char} (h : LeadingWord text kind word)
    (rest : List Char) : LeadingWord (text ++ stop :: rest) kind word := by
  refine ⟨h.isPrefix.trans (List.prefix_append text _), h.mem, ?_, h.preferred⟩
  intro other otherKind hinitial hother
  rcases prefix_append_cons_cases hinitial with hwithin | ⟨more, rfl⟩
  · exact h.longest other otherKind hwithin hother
  · obtain rfl := hstops.stringLiteral_of_crossing hstop h.ne_nil hother
    have hbegins : word <+: text ++ stop :: more :=
      h.isPrefix.trans (List.prefix_append text _)
    exact (length_eq_of_string h.mem hother hbegins List.prefix_rfl).le

theorem pieces_eq_ofWord {kind : TokenKind} {word rest : List Char}
    (h : LeadingWord (word ++ rest) kind word) :
    Piece.pieces (word ++ rest) = Piece.ofWord kind word :: Piece.pieces rest := by
  have hmatch := match?_of_leadingWord h
  have hmem := h.mem
  obtain ⟨first, initial, rfl⟩ :=
    List.exists_cons_of_ne_nil (ne_nil_of_mem_wordsOf hmem)
  rw [List.cons_append] at hmatch ⊢
  rw [Piece.pieces_of_match (not_isBlank_of_word hmem) hmatch]
  simp

theorem pieces_of_leadingWord {kind : TokenKind} {word rest : List Char}
    (h : LeadingWord (word ++ rest) kind word)
    (hadmissible : isAdmissible kind word = true) :
    Piece.pieces (word ++ rest) = .word kind word :: Piece.pieces rest := by
  rw [pieces_eq_ofWord h, Piece.ofWord, if_pos hadmissible]

theorem IsLexeme.pieces {stops : List Char} (hstops : Separates stops)
    {stop : Char} (hstop : stop ∈ stops) {kind : TokenKind} {word : List Char}
    (h : IsLexeme kind word) (rest : List Char) :
    Piece.pieces (word ++ stop :: rest) =
      .word kind word :: Piece.pieces (stop :: rest) :=
  pieces_of_leadingWord (h.leadingWord.append hstops hstop rest) h.admissible

theorem IsLexeme.pieces_of_delimiter {kind : TokenKind} {word rest : List Char}
    (h : IsLexeme kind word) (hrest : BeginsDelimiter rest) :
    Piece.pieces (word ++ rest) = .word kind word :: Piece.pieces rest := by
  obtain ⟨delimiter, hdelimiter, others, rfl⟩ := hrest
  exact h.pieces delimiters_separate hdelimiter others

theorem pieces_of_opening (rest : List Char) :
    Piece.pieces ('(' :: rest) =
      .word .leftParen ['('] :: Piece.pieces rest := by
  have hlexeme : IsLexeme .leftParen ['('] := isLexeme_of_punctuation (by decide)
  refine pieces_of_leadingWord ⟨List.prefix_append ['('] rest, hlexeme.mem, ?_,
    hlexeme.preferred⟩ hlexeme.admissible
  intro other otherKind hinitial hother
  cases other with
  | nil => simp
  | cons first more =>
      rw [List.singleton_append, List.cons_prefix_cons] at hinitial
      rw [hinitial.1] at hother
      simp [eq_nil_of_opening hother]

end Lexicon

end ExprLang

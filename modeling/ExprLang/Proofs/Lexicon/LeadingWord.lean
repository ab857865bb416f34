import ExprLang.Proofs.Lexicon.LongestWord

/-!
# The word that begins a text

Of all prefixes of a text that are words, of whatever class, the leading word
is the longest one; a keyword or a punctuation mark goes before a class that
has the same word.  This leaves no choice (`LeadingWord.unique`), and it is
what `match?` finds.
-/

namespace ExprLang.Lexicon

def fixedKinds : List TokenKind := TokenKind.keywords ++ TokenKind.punctuation

structure LeadingWord (text : List Char) (kind : TokenKind)
    (word : List Char) : Prop where
  isPrefix : word <+: text
  mem : word ∈ wordsOf kind
  longest : ∀ other otherKind, other <+: text → other ∈ wordsOf otherKind →
    other.length ≤ word.length
  preferred : ∀ fixed ∈ fixedKinds, word ∈ wordsOf fixed → kind = fixed

def BeginsWord (text : List Char) : Prop :=
  ∃ kind word, word <+: text ∧ word ∈ wordsOf kind

theorem wordsOf_of_fixed {kind : TokenKind} (h : kind ∈ fixedKinds) :
    wordsOf kind = spelling kind.name := by
  cases kind <;> first | exact absurd h (by decide) | rfl

/-! ## Fixed words among the others -/

theorem name_injective {first second : TokenKind}
    (h : first.name.toList = second.name.toList) : first = second := by
  have hname : TokenKind.ofName? first.name = TokenKind.ofName? second.name :=
    congrArg TokenKind.ofName? (String.toList_inj.mp h)
  rw [TokenKind.ofName?_name, TokenKind.ofName?_name] at hname
  exact Option.some.inj hname

theorem fixed_scans : ∀ fixed ∈ fixedKinds,
    stringLength? fixed.name.toList = none ∧
      integerLength? fixed.name.toList = none ∧
        floatLength? fixed.name.toList = none := by
  decide

theorem punctuation_scans : ∀ mark ∈ TokenKind.punctuation,
    nameLength? mark.name.toList = none := by
  decide

theorem keyword_scans : ∀ keyword ∈ TokenKind.keywords,
    nameLength? keyword.name.toList = some keyword.name.toList.length ∧
      nameKind keyword.name.toList = keyword := by
  decide

theorem punctuation_pairwise :
    TokenKind.punctuation.Pairwise fun earlier later =>
      earlier.name.toList.isPrefixOf later.name.toList = false := by
  decide

theorem Measures.notMem_of_none {scan : List Char → Option Nat}
    {language : Language Char} (h : Measures scan language) {word : List Char}
    (hnone : scan word = none) : word ∉ language := by
  intro hword
  obtain ⟨length, hlength, -⟩ := h.longest [] hword
  rw [List.append_nil, hnone] at hlength
  contradiction

theorem keyword_mem_names {keyword : TokenKind}
    (h : keyword ∈ TokenKind.keywords) : keyword.name.toList ∈ names := by
  have hmem := (nameLength?_measures.sound (keyword_scans keyword h).1).2
  rwa [List.take_length] at hmem

theorem integers_not_fixed {word : List Char} (h : word ∈ integers)
    {fixed : TokenKind} (hfixed : fixed ∈ fixedKinds) :
    word ∉ wordsOf fixed := by
  intro hspelled
  rw [wordsOf_of_fixed hfixed, mem_spelling] at hspelled
  rw [hspelled] at h
  exact integerLength?_measures.notMem_of_none (fixed_scans fixed hfixed).2.1 h

/-! ## The classes are disjoint -/

theorem not_isDigit_of_isNameStart {character : Char}
    (h : isNameStart character = true) : character.isDigit = false := by
  by_contra hdigit
  rw [Bool.not_eq_false, isDigit_iff] at hdigit
  simp only [isNameStart, Bool.or_eq_true, decide_eq_true_eq, isAlpha_iff] at h
  rcases h with ((h | h) | rfl) | rfl
  · exact absurd (Char.le_trans h.1 hdigit.2) (by decide)
  · exact absurd (Char.le_trans h.1 hdigit.2) (by decide)
  · exact absurd hdigit.1 (by decide)
  · exact absurd hdigit.2 (by decide)

def IsNumberStart (character : Char) : Prop :=
  character.isDigit = true ∨ character = '-' ∨ character = '.'

theorem not_isNumberStart_of_isNameStart {character : Char}
    (h : isNameStart character = true) : ¬ IsNumberStart character := by
  rintro (hdigit | rfl | rfl)
  · rw [not_isDigit_of_isNameStart h] at hdigit
    contradiction
  · revert h
    decide
  · revert h
    decide

theorem integers_start {word : List Char} (h : word ∈ integers) :
    ∃ first rest, word = first :: rest ∧ IsNumberStart first := by
  rcases mem_integers.mp h with hnumber | ⟨number, -, rfl⟩
  · obtain ⟨first, rest, rfl, hfirst⟩ := exists_cons_of_mem_digits hnumber
    exact ⟨first, rest, rfl, .inl hfirst⟩
  · exact ⟨'-', number, rfl, .inr (.inl rfl)⟩

theorem floats_start {word : List Char} (h : word ∈ floats) :
    ∃ first rest, word = first :: rest ∧ IsNumberStart first := by
  rcases mem_floats.mp h with
    ⟨whole, fraction, exponent, hwhole, -, -, rfl⟩ | ⟨whole, hwhole, _, -, rfl⟩
  · cases whole with
    | nil => exact ⟨'.', _, rfl, .inr (.inr rfl)⟩
    | cons first rest =>
        exact ⟨first, _, rfl, .inl (hwhole first List.mem_cons_self)⟩
  · obtain ⟨first, rest, rfl, hfirst⟩ := exists_cons_of_mem_digits hwhole
    exact ⟨first, _, rfl, .inl hfirst⟩

def isFloatMark (character : Char) : Bool :=
  character = '.' || character = 'e' || character = 'E'

theorem integers_unmarked {word : List Char} (h : word ∈ integers) :
    ∀ character ∈ word, isFloatMark character = false := by
  have hdigits : ∀ number ∈ digits, ∀ character ∈ number,
      isFloatMark character = false := by
    intro number hnumber character hmem
    have hdigit := (mem_digits.mp hnumber).2 character hmem
    simp [isFloatMark,
      ne_of_isDigit hdigit (by decide : '.'.isDigit = false),
      ne_of_isDigit hdigit (by decide : 'e'.isDigit = false),
      ne_of_isDigit hdigit (by decide : 'E'.isDigit = false)]
  rcases mem_integers.mp h with hnumber | ⟨number, hnumber, rfl⟩
  · exact hdigits word hnumber
  · exact List.forall_mem_cons.mpr ⟨by decide, hdigits number hnumber⟩

theorem floats_marked {word : List Char} (h : word ∈ floats) :
    ∃ character ∈ word, isFloatMark character = true := by
  rcases mem_floats.mp h with
    ⟨whole, fraction, exponent, -, -, -, rfl⟩ |
      ⟨whole, -, exponent, hexponent, rfl⟩
  · exact ⟨'.', by simp, by decide⟩
  · obtain ⟨marker, sign, number, hmarker, -, -, rfl⟩ :=
      mem_exponents.mp hexponent
    refine ⟨marker, by simp, ?_⟩
    rcases hmarker with rfl | rfl <;> decide

theorem strings_start {word : List Char} (h : word ∈ strings) :
    ∃ rest, word = '\x22' :: rest := by
  obtain ⟨items, -, rfl⟩ := mem_strings.mp h
  exact ⟨_, rfl⟩

theorem names_start {word : List Char} (h : word ∈ names) :
    ∃ first rest, word = first :: rest ∧ isNameStart first = true := by
  obtain ⟨first, rest, rfl, hfirst, -⟩ := mem_names.mp h
  exact ⟨first, rest, rfl, hfirst⟩

def openKinds : List TokenKind :=
  [.identifier, .integerLiteral, .floatLiteral, .stringLiteral]

theorem mem_openKinds_of_mem {kind : TokenKind} {word : List Char}
    (h : word ∈ wordsOf kind) : kind ∈ fixedKinds ∨ kind ∈ openKinds := by
  cases kind with
  | endOfText => exact absurd h (Language.notMem_zero word)
  | _ => decide

theorem not_isNumberStart_quote : ¬ IsNumberStart '\x22' := by
  rintro (h | h | h) <;> revert h <;> decide

def Starts : TokenKind → Char → Prop
  | .identifier, first => isNameStart first = true
  | .integerLiteral, first => IsNumberStart first
  | .floatLiteral, first => IsNumberStart first
  | .stringLiteral, first => first = '\x22'
  | _, _ => False

theorem exists_start {kind : TokenKind} {word : List Char}
    (hopen : kind ∈ openKinds) (h : word ∈ wordsOf kind) :
    ∃ first rest, word = first :: rest ∧ Starts kind first := by
  simp only [openKinds, List.mem_cons, List.not_mem_nil, or_false] at hopen
  rcases hopen with rfl | rfl | rfl | rfl
  · exact names_start h
  · exact integers_start h
  · exact floats_start h
  · obtain ⟨rest, rfl⟩ := strings_start h
    exact ⟨_, rest, rfl, rfl⟩

theorem kind_of_nameStart {kind : TokenKind} {first : Char}
    (hfirst : isNameStart first = true) (h : Starts kind first) :
    kind = .identifier := by
  cases kind with
  | identifier => rfl
  | integerLiteral => exact absurd h (not_isNumberStart_of_isNameStart hfirst)
  | floatLiteral => exact absurd h (not_isNumberStart_of_isNameStart hfirst)
  | stringLiteral =>
      rw [Starts] at h
      rw [h] at hfirst
      contradiction
  | _ => exact h.elim

theorem kind_of_numberStart {kind : TokenKind} {first : Char}
    (hfirst : IsNumberStart first) (h : Starts kind first) :
    kind = .integerLiteral ∨ kind = .floatLiteral := by
  cases kind with
  | identifier => exact absurd hfirst (not_isNumberStart_of_isNameStart h)
  | integerLiteral => exact .inl rfl
  | floatLiteral => exact .inr rfl
  | stringLiteral =>
      rw [Starts] at h
      rw [h] at hfirst
      exact absurd hfirst not_isNumberStart_quote
  | _ => exact h.elim

theorem kind_of_quote {kind : TokenKind} (h : Starts kind '\x22') :
    kind = .stringLiteral := by
  cases kind with
  | identifier => contradiction
  | integerLiteral => exact absurd h not_isNumberStart_quote
  | floatLiteral => exact absurd h not_isNumberStart_quote
  | stringLiteral => rfl
  | _ => exact h.elim

theorem integers_not_float {word : List Char} (h : word ∈ integers) :
    word ∉ floats := by
  intro hfloat
  obtain ⟨character, hmem, hmark⟩ := floats_marked hfloat
  rw [integers_unmarked h character hmem] at hmark
  contradiction

theorem eq_of_mem_open {first second : TokenKind} {word : List Char}
    (hfirst : first ∈ openKinds) (hsecond : second ∈ openKinds)
    (hmemFirst : word ∈ wordsOf first) (hmemSecond : word ∈ wordsOf second) :
    first = second := by
  obtain ⟨initial, rest, rfl, hstart⟩ := exists_start hfirst hmemFirst
  obtain ⟨_, _, hcons, hother⟩ := exists_start hsecond hmemSecond
  rw [← (List.cons.inj hcons).1] at hother
  simp only [openKinds, List.mem_cons, List.not_mem_nil, or_false] at hfirst
  rcases hfirst with rfl | rfl | rfl | rfl
  · exact (kind_of_nameStart hstart hother).symm
  · rcases kind_of_numberStart hstart hother with rfl | rfl
    · rfl
    · exact absurd hmemSecond (integers_not_float hmemFirst)
  · rcases kind_of_numberStart hstart hother with rfl | rfl
    · exact absurd hmemFirst (integers_not_float hmemSecond)
    · rfl
  · rw [Starts] at hstart
    rw [hstart] at hother
    exact (kind_of_quote hother).symm

theorem LeadingWord.unique {text word other : List Char}
    {kind otherKind : TokenKind} (h : LeadingWord text kind word)
    (hother : LeadingWord text otherKind other) :
    kind = otherKind ∧ word = other := by
  have hlength : word.length = other.length :=
    Nat.le_antisymm (hother.longest word kind h.isPrefix h.mem)
      (h.longest other otherKind hother.isPrefix hother.mem)
  have hinitial : word <+: other :=
    List.prefix_of_prefix_length_le h.isPrefix hother.isPrefix hlength.le
  have hword : word = other := hinitial.eq_of_length hlength
  subst hword
  refine ⟨?_, rfl⟩
  rcases mem_openKinds_of_mem h.mem with hfixed | hopen
  · exact (hother.preferred kind hfixed h.mem).symm
  · rcases mem_openKinds_of_mem hother.mem with hfixed | hotherOpen
    · exact h.preferred otherKind hfixed hother.mem
    · exact eq_of_mem_open hopen hotherOpen h.mem hother.mem

/-! ## What the candidates are -/

theorem nameKind_mem {word : List Char} (h : word ∈ names) :
    word ∈ wordsOf (nameKind word) := by
  unfold nameKind
  cases hfind : TokenKind.keywords.find? fun kind =>
      kind.name.toList == word with
  | none => exact h
  | some keyword =>
      have hmem := List.mem_of_find?_eq_some hfind
      have hname := List.find?_some hfind
      rw [Option.getD_some,
        wordsOf_of_fixed (List.mem_append_left _ hmem), mem_spelling]
      exact (eq_of_beq hname).symm

theorem punctuation?_sound {text : List Char} {found : Match}
    (h : punctuation? text = some found) :
    found.kind ∈ TokenKind.punctuation ∧
      found.length = found.kind.name.toList.length ∧
        found.kind.name.toList <+: text := by
  simp only [punctuation?, Option.map_eq_some_iff] at h
  obtain ⟨mark, hmark, rfl⟩ := h
  have hinitial := List.find?_some hmark
  exact ⟨List.mem_of_find?_eq_some hmark, String.length_toList.symm,
    List.isPrefixOf_iff_prefix.mp hinitial⟩

theorem punctuation?_longest {mark : TokenKind} (rest : List Char)
    (h : mark ∈ TokenKind.punctuation) :
    ∃ found, punctuation? (mark.name.toList ++ rest) = some found ∧
      mark.name.toList.length ≤ found.length := by
  have hfits : mark.name.toList.isPrefixOf (mark.name.toList ++ rest) = true :=
    List.isPrefixOf_iff_prefix.mpr (List.prefix_append _ _)
  cases hfind : TokenKind.punctuation.find? fun kind =>
      kind.name.toList.isPrefixOf (mark.name.toList ++ rest) with
  | none =>
      have hnone := List.find?_eq_none.mp hfind mark h
      exact absurd hfits hnone
  | some first =>
      refine ⟨⟨first, first.name.length⟩, by simp [punctuation?, hfind], ?_⟩
      obtain ⟨hfirst, earlier, later, hsplit, hearlier⟩ :=
        List.find?_eq_some_iff_append.mp hfind
      have hinitial := List.isPrefixOf_iff_prefix.mp hfirst
      rw [hsplit, List.mem_append, List.mem_cons] at h
      rcases h with hmem | rfl | hmem
      · have hfails := hearlier mark hmem
        rw [hfits] at hfails
        contradiction
      · exact String.length_toList.le
      · have hpairwise := punctuation_pairwise
        rw [hsplit] at hpairwise
        have hno : first.name.toList.isPrefixOf mark.name.toList = false :=
          (List.pairwise_cons.mp
            (List.pairwise_append.mp hpairwise).2.1).1 mark hmem
        rcases List.prefix_or_prefix_of_prefix hinitial
            (List.prefix_append mark.name.toList rest) with hbefore | hafter
        · rw [List.isPrefixOf_iff_prefix.mpr hbefore] at hno
          contradiction
        · exact hafter.length_le.trans String.length_toList.le

def literalKinds : List TokenKind :=
  [.integerLiteral, .floatLiteral, .stringLiteral]

theorem candidates_cases {text : List Char} {found : Match}
    (h : found ∈ candidates text) :
    found.length ≤ text.length ∧
      ((found.kind ∈ TokenKind.punctuation ∧
          text.take found.length = found.kind.name.toList) ∨
        (text.take found.length ∈ names ∧
          found.kind = nameKind (text.take found.length)) ∨
        (found.kind ∈ literalKinds ∧
          text.take found.length ∈ wordsOf found.kind)) := by
  simp only [candidates, List.mem_append, Option.mem_toList] at h
  rcases h with (((h | h) | h) | h) | h
  · obtain ⟨hmem, hlength, hinitial⟩ := punctuation?_sound h
    rw [hlength]
    exact ⟨hinitial.length_le,
      .inl ⟨hmem, (List.prefix_iff_eq_take.mp hinitial).symm⟩⟩
  · obtain ⟨length, hlength, rfl⟩ := Option.map_eq_some_iff.mp h
    obtain ⟨hle, hword⟩ := nameLength?_measures.sound hlength
    exact ⟨hle, .inr (.inl ⟨hword, rfl⟩)⟩
  · obtain ⟨length, hlength, rfl⟩ := Option.map_eq_some_iff.mp h
    obtain ⟨hle, hword⟩ := stringLength?_measures.sound hlength
    exact ⟨hle, .inr (.inr ⟨by simp [literalKinds], hword⟩)⟩
  · obtain ⟨length, hlength, rfl⟩ := Option.map_eq_some_iff.mp h
    obtain ⟨hle, hword⟩ := integerLength?_measures.sound hlength
    exact ⟨hle, .inr (.inr ⟨by simp [literalKinds], hword⟩)⟩
  · obtain ⟨length, hlength, rfl⟩ := Option.map_eq_some_iff.mp h
    obtain ⟨hle, hword⟩ := floatLength?_measures.sound hlength
    exact ⟨hle, .inr (.inr ⟨by simp [literalKinds], hword⟩)⟩

theorem candidates_sound {text : List Char} {found : Match}
    (h : found ∈ candidates text) :
    found.length ≤ text.length ∧
      text.take found.length ∈ wordsOf found.kind := by
  obtain ⟨hle, ⟨hmem, hword⟩ | ⟨hword, hkind⟩ | ⟨-, hword⟩⟩ :=
    candidates_cases h
  · refine ⟨hle, ?_⟩
    rw [wordsOf_of_fixed (List.mem_append_right _ hmem), hword]
    exact mem_spelling.mpr rfl
  · refine ⟨hle, ?_⟩
    rw [hkind]
    exact nameKind_mem hword
  · exact ⟨hle, hword⟩

theorem candidates_preferred {text : List Char} {found : Match}
    {fixed : TokenKind} (h : found ∈ candidates text)
    (hfixed : fixed ∈ fixedKinds)
    (hword : text.take found.length ∈ wordsOf fixed) : found.kind = fixed := by
  rw [wordsOf_of_fixed hfixed, mem_spelling] at hword
  obtain ⟨hstring, hinteger, hfloat⟩ := fixed_scans fixed hfixed
  obtain ⟨-, ⟨-, hmark⟩ | ⟨hname, hkind⟩ | ⟨hliteral, hmem⟩⟩ :=
    candidates_cases h
  · exact name_injective (hmark.symm.trans hword)
  · rw [hword] at hname hkind
    rcases List.mem_append.mp hfixed with hkeyword | hmark
    · rw [hkind, (keyword_scans fixed hkeyword).2]
    · exact absurd hname
        (nameLength?_measures.notMem_of_none (punctuation_scans fixed hmark))
  · rw [hword] at hmem
    simp only [literalKinds, List.mem_cons, List.not_mem_nil, or_false]
      at hliteral
    rcases hliteral with hkind | hkind | hkind <;> rw [hkind] at hmem
    · exact absurd hmem (integerLength?_measures.notMem_of_none hinteger)
    · exact absurd hmem (floatLength?_measures.notMem_of_none hfloat)
    · exact absurd hmem (stringLength?_measures.notMem_of_none hstring)

theorem candidates_longest {kind : TokenKind} {word : List Char}
    (rest : List Char) (h : word ∈ wordsOf kind) :
    ∃ found ∈ candidates (word ++ rest), word.length ≤ found.length := by
  have hname : word ∈ names →
      ∃ found ∈ candidates (word ++ rest), word.length ≤ found.length := by
    intro hword
    obtain ⟨length, hlength, hle⟩ := nameLength?_measures.longest rest hword
    exact ⟨⟨nameKind ((word ++ rest).take length), length⟩,
      by simp [candidates, name?, hlength], hle⟩
  rcases mem_openKinds_of_mem h with hfixed | hopen
  · have hspelled := h
    rw [wordsOf_of_fixed hfixed, mem_spelling] at hspelled
    rcases List.mem_append.mp hfixed with hkeyword | hmark
    · exact hname (hspelled ▸ keyword_mem_names hkeyword)
    · obtain ⟨found, hfound, hle⟩ := punctuation?_longest rest hmark
      rw [← hspelled] at hfound hle
      exact ⟨found, by simp [candidates, hfound], hle⟩
  · simp only [openKinds, List.mem_cons, List.not_mem_nil, or_false] at hopen
    rcases hopen with rfl | rfl | rfl | rfl
    · exact hname h
    · obtain ⟨length, hlength, hle⟩ := integerLength?_measures.longest rest h
      exact ⟨⟨.integerLiteral, length⟩, by simp [candidates, hlength], hle⟩
    · obtain ⟨length, hlength, hle⟩ := floatLength?_measures.longest rest h
      exact ⟨⟨.floatLiteral, length⟩, by simp [candidates, hlength], hle⟩
    · obtain ⟨length, hlength, hle⟩ := stringLength?_measures.longest rest h
      exact ⟨⟨.stringLiteral, length⟩, by simp [candidates, hlength], hle⟩

/-! ## The match is the leading word -/

theorem length_le_longest {list : List Match} {best : Match}
    (h : longest list = some best) :
    ∀ entry ∈ list, entry.length ≤ best.length := by
  cases list with
  | nil => simp
  | cons first others =>
      simp only [longest, Option.some.injEq] at h
      induction others generalizing first with
      | nil =>
          intro entry hentry
          rw [List.mem_singleton.mp hentry, ← h]
          rfl
      | cons second others ih =>
          have hothers := ih _ h
          have hchosen : first.length ≤ best.length ∧
              second.length ≤ best.length := by
            have hkept := hothers _ List.mem_cons_self
            simp only at hkept
            split at hkept <;> omega
          intro entry hentry
          rcases List.mem_cons.mp hentry with rfl | hentry
          · exact hchosen.1
          · rcases List.mem_cons.mp hentry with rfl | hentry
            · exact hchosen.2
            · exact hothers entry (List.mem_cons_of_mem _ hentry)

theorem match?_leadingWord {text : List Char} {found : Match}
    (h : match? text = some found) :
    LeadingWord text found.kind (text.take found.length) := by
  have hmem := longest_mem h
  obtain ⟨hle, hword⟩ := candidates_sound hmem
  refine ⟨List.take_prefix _ text, hword, ?_, ?_⟩
  · rintro other otherKind ⟨rest, rfl⟩ hother
    obtain ⟨entry, hentry, hlength⟩ := candidates_longest rest hother
    rw [List.length_take, Nat.min_eq_left hle]
    exact hlength.trans (length_le_longest h entry hentry)
  · intro fixed hfixed hother
    exact candidates_preferred hmem hfixed hother

theorem match?_eq_none_iff {text : List Char} :
    match? text = none ↔ ¬ BeginsWord text := by
  constructor
  · rintro h ⟨kind, word, ⟨rest, rfl⟩, hword⟩
    obtain ⟨found, hfound, -⟩ := candidates_longest rest hword
    cases hcandidates : candidates (word ++ rest) with
    | nil => simp [hcandidates] at hfound
    | cons first others => simp [match?, hcandidates, longest] at h
  · intro h
    cases hmatch : match? text with
    | none => rfl
    | some found =>
        have hleading := match?_leadingWord hmatch
        exact absurd ⟨_, _, hleading.isPrefix, hleading.mem⟩ h

/-- The match is the leading word, by its kind and length. -/
theorem match?_eq_some_iff {text : List Char} {found : Match} :
    match? text = some found ↔
      found.length ≤ text.length ∧
        LeadingWord text found.kind (text.take found.length) := by
  constructor
  · intro h
    exact ⟨(candidates_sound (longest_mem h)).1, match?_leadingWord h⟩
  · rintro ⟨hle, h⟩
    cases hmatch : match? text with
    | none =>
        exact absurd ⟨_, _, h.isPrefix, h.mem⟩ (match?_eq_none_iff.mp hmatch)
    | some other =>
        obtain ⟨hkind, hword⟩ := (match?_leadingWord hmatch).unique h
        have hotherLe := (candidates_sound (longest_mem hmatch)).1
        have hlength := congrArg List.length hword
        rw [List.length_take, List.length_take, Nat.min_eq_left hotherLe,
          Nat.min_eq_left hle] at hlength
        cases other
        cases found
        simp_all

theorem match?_of_leadingWord {kind : TokenKind} {word rest : List Char}
    (h : LeadingWord (word ++ rest) kind word) :
    match? (word ++ rest) = some ⟨kind, word.length⟩ := by
  refine match?_eq_some_iff.mpr ⟨by simp, ?_⟩
  simpa using h

end ExprLang.Lexicon

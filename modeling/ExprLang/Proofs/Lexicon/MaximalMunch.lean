import ExprLang.Proofs.Lexicon.LeadingWord
import ExprLang.Tokenization
import Mathlib.Data.Nat.Digits.Defs

/-!
# Maximal munch

A text is segmented from its head: a blank by itself, else the leading word,
else the longest stretch of characters that are no blanks and begin no words.
The segmentation is unique, and tokenizing gives what its segments come to.
An integer out of range is no token, and neither is one with more digits than
integers are read from; only the second is not a matter of the number itself.
-/

namespace ExprLang.Lexicon

/-! ## Segments -/

def blanks : List Char := [' ', '\t', '\n', '\x0c', '\r']

def BeginsBlank (text : List Char) : Prop :=
  ∃ character ∈ blanks, text.head? = some character

/-- A character is there that is no blank and begins no word. -/
def BeginsUnknown (text : List Char) : Prop :=
  text ≠ [] ∧ ¬ BeginsBlank text ∧ ¬ BeginsWord text

/-- The segment at the head of a text. -/
def BeginsWith (text : List Char) : Piece → Prop
  | .blank character => character ∈ blanks ∧ text.head? = some character
  | .word kind word => ¬ BeginsBlank text ∧ LeadingWord text kind word
  | .unknown stretch =>
      stretch ≠ [] ∧ stretch <+: text ∧
        (∀ position < stretch.length, BeginsUnknown (text.drop position)) ∧
          ¬ BeginsUnknown (text.drop stretch.length)

/-- The segments follow one another from the head of the text to its end. -/
def Segmentation : List Char → List Piece → Prop
  | text, [] => text = []
  | text, segment :: segments =>
      BeginsWith text segment ∧
        Segmentation (text.drop segment.text.length) segments

/-! ## What segments come to -/

def digitOf (character : Char) : Nat := character.toNat - '0'.toNat

/-- The number that digits of base ten, the lowest one last, and a minus sign
before them stand for. -/
def decimalValue : List Char → Int
  | '-' :: digits => -((Nat.ofDigits 10 (digits.reverse.map digitOf) : Nat) : Int)
  | digits => ((Nat.ofDigits 10 (digits.reverse.map digitOf) : Nat) : Int)

def InRange (word : List Char) : Prop :=
  -0x80000000 ≤ decimalValue word ∧ decimalValue word ≤ 0x7fffffff

def WithinLimits (word : List Char) : Prop :=
  InRange word ∧ word.countP Char.isDigit ≤ Number.digitLimit

/-- What the token of a word carries: an integer token its decimal value. -/
def carried (kind : TokenKind) (word : List Char) : TokenValue :=
  if kind = .integerLiteral then .integer (decimalValue word)
  else value kind word

/-- The tokens and faults of segments that begin at an offset, when integers
are admitted as given. -/
inductive Outcome (admits : List Char → Prop) :
    Nat → List Piece → List Token → List Fault → Prop
  | done {offset : Nat} : Outcome admits offset [] [] []
  | blank {offset : Nat} {character : Char} {segments : List Piece}
      {tokens : List Token} {faults : List Fault}
      (hrest : Outcome admits (offset + 1) segments tokens faults) :
      Outcome admits offset (.blank character :: segments) tokens faults
  | token {offset : Nat} {kind : TokenKind} {word : List Char}
      {segments : List Piece} {tokens : List Token} {faults : List Fault}
      (hadmits : kind = .integerLiteral → admits word)
      (hrest : Outcome admits (offset + word.length) segments tokens faults) :
      Outcome admits offset (.word kind word :: segments)
        (⟨kind, String.ofList word, Span.covering offset word,
          carried kind word⟩ :: tokens) faults
  | refused {offset : Nat} {word : List Char} {segments : List Piece}
      {tokens : List Token} {faults : List Fault} (hrefused : ¬ admits word)
      (hrest : Outcome admits (offset + word.length) segments tokens faults) :
      Outcome admits offset (.word .integerLiteral word :: segments) tokens
        (.unknownToken (Span.covering offset word) :: faults)
  | unknown {offset : Nat} {stretch : List Char} {segments : List Piece}
      {tokens : List Token} {faults : List Fault}
      (hrest : Outcome admits (offset + stretch.length) segments tokens
        faults) :
      Outcome admits offset (.unknown stretch :: segments) tokens
        (.unknownToken (Span.covering offset stretch) :: faults)

/-! ## Segments exist and are unique -/

theorem isBlank_iff (character : Char) :
    isBlank character = true ↔ character ∈ blanks := by
  simp [isBlank, blanks, or_assoc]

theorem beginsBlank_cons {character : Char} {rest : List Char} :
    BeginsBlank (character :: rest) ↔ isBlank character = true := by
  simp [BeginsBlank, isBlank_iff]

theorem beginsUnknown_cons {character : Char} {rest : List Char} :
    BeginsUnknown (character :: rest) ↔
      isBlank character = false ∧ match? (character :: rest) = none := by
  simp [BeginsUnknown, beginsBlank_cons, match?_eq_none_iff]

theorem ne_nil_of_mem_wordsOf {kind : TokenKind} {word : List Char}
    (h : word ∈ wordsOf kind) : word ≠ [] := by
  rintro rfl
  obtain ⟨found, hfound, hlength⟩ := candidates_longest [] h
  simp [candidates, punctuation?, TokenKind.punctuation, TokenKind.name,
    name?, nameLength?, stringLength?, integerLength?, digitsLength?,
    floatLength?] at hfound

theorem LeadingWord.ne_nil {text word : List Char} {kind : TokenKind}
    (h : LeadingWord text kind word) : text ≠ [] := by
  rintro rfl
  exact ne_nil_of_mem_wordsOf h.mem (List.prefix_nil.mp h.isPrefix)

theorem LeadingWord.not_beginsUnknown {text word : List Char}
    {kind : TokenKind} (h : LeadingWord text kind word) :
    ¬ BeginsUnknown text :=
  fun hunknown => hunknown.2.2 ⟨kind, word, h.isPrefix, h.mem⟩

theorem stretch_unique {text first second : List Char}
    (hfirst : BeginsWith text (.unknown first))
    (hsecond : BeginsWith text (.unknown second)) : first = second := by
  obtain ⟨-, hfirstPrefix, hfirstUnknown, hfirstEnd⟩ := hfirst
  obtain ⟨-, hsecondPrefix, hsecondUnknown, hsecondEnd⟩ := hsecond
  have hlength : first.length = second.length := by
    apply Nat.le_antisymm
    · by_contra hlt
      exact hsecondEnd (hfirstUnknown _ (Nat.lt_of_not_le hlt))
    · by_contra hlt
      exact hfirstEnd (hsecondUnknown _ (Nat.lt_of_not_le hlt))
  exact (List.prefix_of_prefix_length_le hfirstPrefix hsecondPrefix
    hlength.le).eq_of_length hlength

theorem beginsUnknown_of_stretch {text stretch : List Char}
    (h : BeginsWith text (.unknown stretch)) : BeginsUnknown text := by
  obtain ⟨hnonempty, -, hunknown, -⟩ := h
  exact hunknown 0 (List.length_pos_of_ne_nil hnonempty)

theorem BeginsWith.unique {text : List Char} {first second : Piece}
    (hfirst : BeginsWith text first) (hsecond : BeginsWith text second) :
    first = second := by
  cases first with
  | blank character =>
      obtain ⟨hblank, hhead⟩ := hfirst
      cases second with
      | blank other =>
          have hsame := hhead.symm.trans hsecond.2
          rw [Option.some.inj hsame]
      | word kind word => exact absurd ⟨character, hblank, hhead⟩ hsecond.1
      | unknown stretch =>
          exact absurd ⟨character, hblank, hhead⟩
            (beginsUnknown_of_stretch hsecond).2.1
  | word kind word =>
      obtain ⟨hunblank, hword⟩ := hfirst
      cases second with
      | blank other => exact absurd ⟨other, hsecond⟩ hunblank
      | word otherKind other =>
          obtain ⟨rfl, rfl⟩ := hword.unique hsecond.2
          rfl
      | unknown stretch =>
          exact absurd (beginsUnknown_of_stretch hsecond)
            hword.not_beginsUnknown
  | unknown stretch =>
      have hunknown := beginsUnknown_of_stretch hfirst
      cases second with
      | blank other => exact absurd ⟨other, hsecond⟩ hunknown.2.1
      | word kind word => exact absurd hunknown hsecond.2.not_beginsUnknown
      | unknown other => rw [stretch_unique hfirst hsecond]

theorem Segmentation.unique {text : List Char} {first second : List Piece}
    (hfirst : Segmentation text first) (hsecond : Segmentation text second) :
    first = second := by
  have hempty : ∀ segment, ¬ BeginsWith [] segment := by
    rintro (character | ⟨kind, word⟩ | stretch) h
    · simp [BeginsWith] at h
    · exact h.2.ne_nil rfl
    · exact (beginsUnknown_of_stretch h).1 rfl
  induction first generalizing text second with
  | nil =>
      cases second with
      | nil => rfl
      | cons segment segments =>
          have hnil : text = [] := hfirst
          subst hnil
          exact absurd hsecond.1 (hempty segment)
  | cons segment segments ih =>
      cases second with
      | nil =>
          have hnil : text = [] := hsecond
          subst hnil
          exact absurd hfirst.1 (hempty segment)
      | cons other others =>
          obtain rfl := hfirst.1.unique hsecond.1
          rw [ih hfirst.2 hsecond.2]

/-! ## The pieces of a text are its segments -/

def judged : Piece → Piece
  | .word kind word => Piece.ofWord kind word
  | segment => segment

theorem unknownLength_spec (text : List Char) :
    Piece.unknownLength text ≤ text.length ∧
      (∀ position < Piece.unknownLength text,
        BeginsUnknown (text.drop position)) ∧
          ¬ BeginsUnknown (text.drop (Piece.unknownLength text)) := by
  induction text with
  | nil => simp [Piece.unknownLength, BeginsUnknown]
  | cons character rest ih =>
      obtain ⟨hle, hunknown, hend⟩ := ih
      rw [Piece.unknownLength]
      by_cases hbegins : BeginsUnknown (character :: rest)
      · have hnot := beginsUnknown_cons.mp hbegins
        rw [if_neg (by simp [hnot])]
        refine ⟨Nat.succ_le_succ hle, ?_, hend⟩
        intro position hposition
        cases position with
        | zero => exact hbegins
        | succ position => exact hunknown position (Nat.lt_of_succ_lt_succ hposition)
      · rw [beginsUnknown_cons, not_and_or, Bool.not_eq_false,
          ← ne_eq, Option.ne_none_iff_isSome] at hbegins
        rw [if_pos (by simpa using hbegins)]
        refine ⟨Nat.zero_le _, by simp, ?_⟩
        rw [List.drop_zero, beginsUnknown_cons, not_and_or, Bool.not_eq_false,
          ← ne_eq, Option.ne_none_iff_isSome]
        exact hbegins

theorem exists_segment {text : List Char} (h : text ≠ []) :
    ∃ segment, BeginsWith text segment ∧ segment.text ≠ [] ∧
      Piece.pieces text =
        judged segment :: Piece.pieces (text.drop segment.text.length) := by
  obtain ⟨character, rest, rfl⟩ := List.exists_cons_of_ne_nil h
  cases hblank : isBlank character with
  | true =>
      exact ⟨.blank character, ⟨(isBlank_iff character).mp hblank, rfl⟩,
        by simp [Piece.text], Piece.pieces_of_blank rest hblank⟩
  | false =>
      have hunblank : ¬ BeginsBlank (character :: rest) := by
        rw [beginsBlank_cons, hblank]
        simp
      cases hmatch : match? (character :: rest) with
      | some found =>
          obtain ⟨hle, hword⟩ := match?_eq_some_iff.mp hmatch
          refine ⟨.word found.kind ((character :: rest).take found.length),
            ⟨hunblank, hword⟩, ne_nil_of_mem_wordsOf hword.mem, ?_⟩
          rw [Piece.pieces_of_match hblank hmatch, Piece.text,
            List.length_take, Nat.min_eq_left hle]
          rfl
      | none =>
          have hbegins := beginsUnknown_cons.mpr ⟨hblank, hmatch⟩
          obtain ⟨hle, hunknown, hend⟩ := unknownLength_spec rest
          have hlength :
              (character :: rest.take (Piece.unknownLength rest)).length =
                Piece.unknownLength rest + 1 := by
            rw [List.length_cons, List.length_take, Nat.min_eq_left hle]
          refine ⟨.unknown (character :: rest.take (Piece.unknownLength rest)),
            ⟨by simp, ?_, ?_, ?_⟩, by simp [Piece.text], ?_⟩
          · exact List.cons_prefix_cons.mpr ⟨rfl, List.take_prefix _ rest⟩
          · rw [hlength]
            intro position hposition
            cases position with
            | zero => exact hbegins
            | succ position =>
                exact hunknown position (Nat.lt_of_succ_lt_succ hposition)
          · rw [hlength]
            exact hend
          · rw [Piece.pieces_of_no_match hblank hmatch, Piece.text, hlength]
            rfl

theorem exists_segmentation (text : List Char) :
    ∃ segments, Segmentation text segments ∧
      Piece.pieces text = segments.map judged := by
  induction hlength : text.length using Nat.strongRecOn generalizing text with
  | ind length ih =>
      by_cases hempty : text = []
      · subst hempty
        exact ⟨[], rfl, Piece.pieces_nil⟩
      · obtain ⟨segment, hbegins, hnonempty, hpieces⟩ := exists_segment hempty
        have htext := List.length_pos_of_ne_nil hempty
        have hsegment := List.length_pos_of_ne_nil hnonempty
        obtain ⟨segments, hsegments, hmap⟩ :=
          ih (text.drop segment.text.length).length
            (by rw [List.length_drop]; omega) _ rfl
        exact ⟨segment :: segments, ⟨hbegins, hsegments⟩,
          by rw [hpieces, hmap, List.map_cons]⟩

/-! ## Decimal values -/

theorem natValue_eq_ofDigits (digits : List Char) :
    Number.natValue digits = Nat.ofDigits 10 (digits.reverse.map digitOf) := by
  induction digits using List.reverseRecOn with
  | nil => rfl
  | append_singleton digits last ih =>
      rw [List.reverse_append, List.reverse_singleton, List.singleton_append,
        List.map_cons, Nat.ofDigits_cons, ← ih]
      simp [Number.natValue, Nat.ofDigitChars, digitOf, Nat.add_comm]

theorem signedValue_eq_decimalValue (word : List Char) :
    Number.signedValue word = decimalValue word := by
  unfold Number.signedValue decimalValue
  split <;> simp only [natValue_eq_ofDigits]

theorem carried_eq_value (kind : TokenKind) (word : List Char) :
    carried kind word = value kind word := by
  rw [carried]
  split
  case isTrue hkind => rw [hkind, value, signedValue_eq_decimalValue]
  case isFalse => rfl

/-! ## Outcomes -/

theorem isAdmissible_iff (kind : TokenKind) (word : List Char) :
    isAdmissible kind word = true ↔
      (kind = .integerLiteral → WithinLimits word) := by
  by_cases hkind : kind = .integerLiteral
  · simp [isAdmissible, hkind, WithinLimits, InRange, isRepresentable,
      signedValue_eq_decimalValue, and_comm]
  · simp [isAdmissible, hkind]

theorem Outcome.offset_le {admits : List Char → Prop} {offset : Nat}
    {segments : List Piece} {tokens : List Token} {faults : List Fault}
    (h : Outcome admits offset segments tokens faults) :
    ∀ token ∈ tokens, (offset : Int) ≤ token.span.start := by
  induction h with
  | done => simp
  | blank _ ih =>
      intro token htoken
      have := ih token htoken
      omega
  | token _ _ ih =>
      intro token htoken
      rcases List.mem_cons.mp htoken with rfl | htoken
      · exact Int.le_refl _
      · have := ih token htoken
        omega
  | refused _ _ ih =>
      intro token htoken
      have := ih token htoken
      omega
  | unknown _ ih =>
      intro token htoken
      have := ih token htoken
      omega

theorem Outcome.eq_placed {offset : Nat} {segments : List Piece}
    {tokens : List Token} {faults : List Fault}
    (h : Outcome WithinLimits offset segments tokens faults) :
    tokens = Piece.placeTokens offset (segments.map judged) ∧
      faults = Piece.placeUnknown offset (segments.map judged) := by
  induction h with
  | done => exact ⟨rfl, rfl⟩
  | blank _ ih => exact ih
  | @token offset kind word _ _ _ hadmits _ ih =>
      have hjudged : judged (.word kind word) = .word kind word :=
        if_pos ((isAdmissible_iff kind word).mpr hadmits)
      rw [List.map_cons, hjudged, carried_eq_value]
      exact ⟨congrArg _ ih.1, ih.2⟩
  | @refused offset word _ _ _ hrefused _ ih =>
      have hjudged : judged (.word .integerLiteral word) = .unknown word := by
        refine if_neg ?_
        rw [isAdmissible_iff]
        exact fun hadmits => hrefused (hadmits rfl)
      rw [List.map_cons, hjudged]
      exact ⟨ih.1, congrArg _ ih.2⟩
  | unknown _ ih => exact ⟨ih.1, congrArg _ ih.2⟩

theorem outcome_exists (admits : List Char → Prop) (offset : Nat)
    (segments : List Piece) :
    ∃ tokens faults, Outcome admits offset segments tokens faults := by
  induction segments generalizing offset with
  | nil => exact ⟨_, _, .done⟩
  | cons segment segments ih =>
      obtain ⟨tokens, faults, hrest⟩ := ih (offset + segment.text.length)
      cases segment with
      | blank character => exact ⟨_, _, .blank hrest⟩
      | word kind word =>
          by_cases hadmits : kind = .integerLiteral → admits word
          · exact ⟨_, _, .token hadmits hrest⟩
          · obtain ⟨rfl, hrefused⟩ := Classical.not_imp.mp hadmits
            exact ⟨_, _, .refused hrefused hrest⟩
      | unknown stretch => exact ⟨_, _, .unknown hrest⟩

theorem outcome_iff_placed {offset : Nat} {segments : List Piece}
    {tokens : List Token} {faults : List Fault} :
    Outcome WithinLimits offset segments tokens faults ↔
      tokens = Piece.placeTokens offset (segments.map judged) ∧
        faults = Piece.placeUnknown offset (segments.map judged) := by
  refine ⟨Outcome.eq_placed, ?_⟩
  rintro ⟨rfl, rfl⟩
  obtain ⟨tokens, faults, h⟩ := outcome_exists WithinLimits offset segments
  obtain ⟨rfl, rfl⟩ := h.eq_placed
  exact h

/-- The integers in range have few enough digits to be read. -/
def Readable (segments : List Piece) : Prop :=
  ∀ word, .word .integerLiteral word ∈ segments → InRange word →
    word.countP Char.isDigit ≤ Number.digitLimit

theorem readable_cons_of_ne {segment : Piece} {segments : List Piece}
    (h : ∀ word, segment ≠ .word .integerLiteral word) :
    Readable (segment :: segments) ↔ Readable segments := by
  constructor
  · intro hreadable word hword
    exact hreadable word (List.mem_cons_of_mem segment hword)
  · intro hreadable word hword
    rcases List.mem_cons.mp hword with hsame | hword
    · exact absurd hsame.symm (h word)
    · exact hreadable word hword

theorem readable_cons_integer {word : List Char} {segments : List Piece} :
    Readable (.word .integerLiteral word :: segments) ↔
      (InRange word → word.countP Char.isDigit ≤ Number.digitLimit) ∧
        Readable segments := by
  simp only [Readable, List.mem_cons, Piece.word.injEq, true_and]
  constructor
  · intro h
    exact ⟨h word (.inl rfl), fun other hother => h other (.inr hother)⟩
  · rintro ⟨hword, hothers⟩ other (rfl | hother)
    · exact hword
    · exact hothers other hother

def NoEmptyWord (segments : List Piece) : Prop :=
  ∀ kind word, .word kind word ∈ segments → word ≠ []

theorem NoEmptyWord.tail {segment : Piece} {segments : List Piece}
    (h : NoEmptyWord (segment :: segments)) : NoEmptyWord segments :=
  fun kind word hword => h kind word (List.mem_cons_of_mem segment hword)

theorem outcome_inRange_iff {offset : Nat} {segments : List Piece}
    {tokens : List Token} {faults : List Fault}
    (h : Outcome WithinLimits offset segments tokens faults)
    (hwords : NoEmptyWord segments) :
    Outcome InRange offset segments tokens faults ↔ Readable segments := by
  induction h with
  | done => simp [Readable, Outcome.done]
  | blank _ ih =>
      rw [readable_cons_of_ne (by simp)]
      refine Iff.trans ⟨?_, .blank⟩ (ih hwords.tail)
      intro houtcome
      cases houtcome with
      | blank hrest => exact hrest
  | @token offset kind word segments _ _ hadmits _ ih =>
      have hreadable : Readable (.word kind word :: segments) ↔
          Readable segments := by
        by_cases hkind : kind = .integerLiteral
        · subst hkind
          rw [readable_cons_integer]
          exact and_iff_right fun _ => (hadmits rfl).2
        · exact readable_cons_of_ne (by simp [hkind])
      have hothers := ih hwords.tail
      rw [hreadable, ← hothers]
      constructor
      · intro hrange
        cases hrange with
        | token _ hrest => exact hrest
        | refused hrefused _ => exact absurd (hadmits rfl).1 hrefused
      · exact .token fun hkind => (hadmits hkind).1
  | @refused offset word segments tokens _ hrefused hrest ih =>
      have hrange : (InRange word →
          word.countP Char.isDigit ≤ Number.digitLimit) ↔ ¬ InRange word :=
        ⟨fun hdigits hin => hrefused ⟨hin, hdigits hin⟩,
          fun hout hin => absurd hin hout⟩
      have hothers := ih hwords.tail
      rw [readable_cons_integer, hrange, ← hothers]
      constructor
      · intro houtcome
        cases houtcome with
        | token _ _ =>
            -- A token for the refused word would stand before all others.
            have hstart := hrest.offset_le _ List.mem_cons_self
            have hpos := List.length_pos_of_ne_nil
              (hwords _ word List.mem_cons_self)
            simp only [Span.covering] at hstart
            omega
        | refused hout hothers => exact ⟨hout, hothers⟩
      · rintro ⟨hout, hothers⟩
        exact .refused hout hothers
  | unknown _ ih =>
      rw [readable_cons_of_ne (by simp)]
      refine Iff.trans ⟨?_, .unknown⟩ (ih hwords.tail)
      intro houtcome
      cases houtcome with
      | unknown hrest => exact hrest

theorem Segmentation.noEmptyWord {text : List Char} {segments : List Piece}
    (h : Segmentation text segments) : NoEmptyWord segments := by
  induction segments generalizing text with
  | nil => simp [NoEmptyWord]
  | cons segment segments ih =>
      intro kind word hword
      rcases List.mem_cons.mp hword with rfl | hword
      · exact ne_nil_of_mem_wordsOf h.1.2.mem
      · exact ih h.2 kind word hword

/-! ## Digits alone -/

theorem segmentation_of_digits {word : List Char} (h : word ∈ digits) :
    Segmentation word [.word .integerLiteral word] := by
  have hinteger : word ∈ wordsOf .integerLiteral := mem_integers.mpr (.inl h)
  obtain ⟨first, rest, rfl, hfirst⟩ := exists_cons_of_mem_digits h
  refine ⟨⟨?_, List.prefix_rfl, hinteger, ?_, ?_⟩, List.drop_length⟩
  · rintro ⟨character, hblank, hhead⟩
    rw [List.head?_cons, Option.some.injEq] at hhead
    subst hhead
    have hnone : blanks.any Char.isDigit = false := by decide
    exact List.any_eq_false.mp hnone first hblank hfirst
  · intro other _ hinitial _
    exact hinitial.length_le
  · intro fixed hfixed hspelled
    exact absurd hspelled (integers_not_fixed hinteger hfixed)

theorem inRange_zeros (count : Nat) : InRange (List.replicate count '0') := by
  have hvalue : Number.signedValue (List.replicate count '0') = 0 := by
    have hzero : Number.natValue (List.replicate count '0') = 0 := by
      simp [Number.natValue]
    cases count with
    | zero => rfl
    | succ count =>
        rw [List.replicate_succ] at hzero ⊢
        simp [Number.signedValue, hzero]
  rw [InRange, ← signedValue_eq_decimalValue, hvalue]
  decide

theorem zeros_mem_digits {count : Nat} (h : 0 < count) :
    List.replicate count '0' ∈ digits := by
  refine mem_digits.mpr ⟨by simp; omega, ?_⟩
  intro character hcharacter
  rw [List.eq_of_mem_replicate hcharacter]
  decide

theorem not_readable_zeros {count : Nat} (h : Number.digitLimit < count) :
    ¬ Readable [.word .integerLiteral (List.replicate count '0')] := by
  intro hreadable
  have hdigits := hreadable _ List.mem_cons_self (inRange_zeros count)
  rw [List.countP_replicate, if_pos (by decide)] at hdigits
  omega

end ExprLang.Lexicon

namespace ExprLang

open Lexicon

/-- Tokenizing is longest-match segmentation.  It refuses the integers that are
out of range and those with too many digits, so that it agrees with the rule
that refuses by range alone exactly on readable texts. -/
theorem tokenize_maximal_munch (source : String) :
    ∃ segments,
      (∀ other, Segmentation source.toList other ↔ other = segments) ∧
      (∀ tokens faults, Outcome WithinLimits 0 segments tokens faults ↔
        tokens = (tokenize source).tokens.body ∧
          faults = (tokenize source).faults) ∧
      (tokenize source).tokens.terminal =
        ⟨.endOfText, "", Span.covering source.toList.length [], .absent⟩ ∧
      (Outcome InRange 0 segments (tokenize source).tokens.body
          (tokenize source).faults ↔
        ∀ word, .word .integerLiteral word ∈ segments → InRange word →
          word.countP Char.isDigit ≤ Number.digitLimit) := by
  obtain ⟨segments, hsegments, hpieces⟩ := exists_segmentation source.toList
  have houtcome : ∀ tokens faults,
      Outcome WithinLimits 0 segments tokens faults ↔
        tokens = (tokenize source).tokens.body ∧
          faults = (tokenize source).faults := by
    intro tokens faults
    simp only [tokenize, hpieces]
    exact outcome_iff_placed
  refine ⟨segments, ?_, houtcome, rfl, ?_⟩
  · intro other
    exact ⟨fun hother => hother.unique hsegments, fun hsame => hsame ▸ hsegments⟩
  · exact outcome_inRange_iff ((houtcome _ _).mpr ⟨rfl, rfl⟩)
      hsegments.noEmptyWord

/-- A zero written with 4301 digits is refused although it is in range. -/
theorem tokenize_long_zero :
    ¬ ∃ segments, Segmentation (List.replicate 4301 '0') segments ∧
      Outcome InRange 0 segments
        (tokenize (String.ofList (List.replicate 4301 '0'))).tokens.body
        (tokenize (String.ofList (List.replicate 4301 '0'))).faults := by
  rintro ⟨segments, hsegments, houtcome⟩
  obtain ⟨others, hothers, hpieces⟩ :=
    exists_segmentation (List.replicate 4301 '0')
  have hword := segmentation_of_digits
    (zeros_mem_digits (by decide : 0 < 4301))
  obtain rfl := hsegments.unique hword
  obtain rfl := hothers.unique hword
  have hlimits : Outcome WithinLimits 0
      [.word .integerLiteral (List.replicate 4301 '0')]
      (tokenize (String.ofList (List.replicate 4301 '0'))).tokens.body
      (tokenize (String.ofList (List.replicate 4301 '0'))).faults := by
    rw [outcome_iff_placed]
    simp only [tokenize, String.toList_ofList, hpieces, and_self]
  exact not_readable_zeros (by decide)
    ((outcome_inRange_iff hlimits hword.noEmptyWord).mp houtcome)

end ExprLang

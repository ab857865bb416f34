import ExprLang.Lexicon
import Mathlib.Computability.Language

/-!
# The languages of words

Each class of words is a set of character lists, built from single characters
by union, concatenation and repetition.  Nothing here scans: how a word is
found at the head of a text is compared with these sets elsewhere.
-/

namespace ExprLang.Lexicon

open Computability

/-! ## Building blocks -/

def range (first last : Char) : Language Char :=
  {word | ∃ character, (first ≤ character ∧ character ≤ last) ∧
    word = [character]}

def spelling (word : String) : Language Char := {word.toList}

def optional (language : Language Char) : Language Char := 1 + language

def plain : Language Char :=
  {word | ∃ character, (character ≠ '\x22' ∧ character ≠ '\\') ∧
    word = [character]}

/-! ## The classes -/

def nameStarts : Language Char :=
  range 'a' 'z' + range 'A' 'Z' + spelling "$" + spelling "_"

def nameParts : Language Char := nameStarts + range '0' '9'

def names : Language Char := nameStarts * nameParts∗

def digits : Language Char := range '0' '9' * (range '0' '9')∗

def integers : Language Char := optional (spelling "-") * digits

def exponents : Language Char :=
  (spelling "e" + spelling "E") *
    (optional (spelling "+" + spelling "-") * digits)

def floats : Language Char :=
  (range '0' '9')∗ * (spelling "." * (digits * optional exponents)) +
    digits * exponents

/-- What may stand between the quotes, one character or one escape. -/
def stringItems : Language Char :=
  plain + spelling "\\t" + spelling "\\u" + spelling "\\n" +
    spelling "\\\x22"

def strings : Language Char :=
  spelling "\x22" * (stringItems∗ * spelling "\x22")

/-- The words of a kind.  Keywords and punctuation marks have one each, and the
end of the text is no word. -/
def wordsOf : TokenKind → Language Char
  | .identifier => names
  | .integerLiteral => integers
  | .floatLiteral => floats
  | .stringLiteral => strings
  | .endOfText => 0
  | kind => spelling kind.name

/-! ## Membership -/

@[simp] theorem mem_spelling {spelled : String} {word : List Char} :
    word ∈ spelling spelled ↔ word = spelled.toList := Iff.rfl

theorem mem_range {first last : Char} {word : List Char} :
    word ∈ range first last ↔
      ∃ character, (first ≤ character ∧ character ≤ last) ∧
        word = [character] := Iff.rfl

theorem mem_plain {word : List Char} :
    word ∈ plain ↔ ∃ character, (character ≠ '\x22' ∧ character ≠ '\\') ∧
      word = [character] := Iff.rfl

def Single (language : Language Char) (accepts : Char → Bool) : Prop :=
  ∀ word, word ∈ language ↔
    ∃ character, accepts character = true ∧ word = [character]

theorem Single.mem_kstar {language : Language Char} {accepts : Char → Bool}
    (hsingle : Single language accepts) (word : List Char) :
    word ∈ language∗ ↔ ∀ character ∈ word, accepts character = true := by
  rw [Language.mem_kstar]
  constructor
  · rintro ⟨pieces, rfl, hpieces⟩ character hcharacter
    obtain ⟨piece, hpiece, hmem⟩ := List.mem_flatten.mp hcharacter
    obtain ⟨single, haccepts, rfl⟩ := (hsingle piece).mp (hpieces piece hpiece)
    rw [List.mem_singleton.mp hmem]
    exact haccepts
  · intro h
    refine ⟨word.map fun character => [character], ?_, ?_⟩
    · induction word with
      | nil => rfl
      | cons first rest ih =>
          rw [List.map_cons, List.flatten_cons,
            ← ih fun character hmem => h character (List.mem_cons_of_mem _ hmem)]
          rfl
    · intro piece hpiece
      obtain ⟨character, hcharacter, rfl⟩ := List.mem_map.mp hpiece
      exact (hsingle _).mpr ⟨character, h character hcharacter, rfl⟩

theorem isDigit_iff (character : Char) :
    character.isDigit = true ↔ '0' ≤ character ∧ character ≤ '9' := by
  simp [Char.isDigit, Char.le_def]

theorem isAlpha_iff (character : Char) :
    character.isAlpha = true ↔
      ('a' ≤ character ∧ character ≤ 'z') ∨
        ('A' ≤ character ∧ character ≤ 'Z') := by
  have hupper : character.isUpper = true ↔
      'A' ≤ character ∧ character ≤ 'Z' := decide_eq_true_iff
  have hlower : character.isLower = true ↔
      'a' ≤ character ∧ character ≤ 'z' := by
    change (decide ('a' ≤ character) && decide (character ≤ 'z')) = true ↔ _
    rw [Bool.and_eq_true, decide_eq_true_iff, decide_eq_true_iff]
  change (character.isUpper || character.isLower) = true ↔ _
  rw [Bool.or_eq_true, hupper, hlower, or_comm]

theorem single_digit : Single (range '0' '9') Char.isDigit := by
  intro word
  simp only [isDigit_iff]
  rfl

theorem single_nameStarts : Single nameStarts isNameStart := by
  intro word
  simp only [nameStarts, Language.mem_add, mem_range, mem_spelling,
    isNameStart, Bool.or_eq_true, decide_eq_true_eq, isAlpha_iff,
    or_and_right, exists_or, exists_eq_left]
  rfl

theorem single_nameParts : Single nameParts isNamePart := by
  intro word
  simp only [nameParts, Language.mem_add, single_nameStarts word,
    single_digit word, isNamePart, Bool.or_eq_true, or_and_right, exists_or]

theorem mem_names {word : List Char} :
    word ∈ names ↔ ∃ first rest, word = first :: rest ∧
      isNameStart first = true ∧
        ∀ character ∈ rest, isNamePart character = true := by
  rw [names, Language.mem_mul]
  constructor
  · rintro ⟨start, hstart, rest, hrest, rfl⟩
    obtain ⟨first, hfirst, rfl⟩ := (single_nameStarts start).mp hstart
    exact ⟨first, rest, rfl, hfirst,
      (single_nameParts.mem_kstar rest).mp hrest⟩
  · rintro ⟨first, rest, rfl, hfirst, hrest⟩
    exact ⟨[first], (single_nameStarts _).mpr ⟨first, hfirst, rfl⟩, rest,
      (single_nameParts.mem_kstar rest).mpr hrest, rfl⟩

theorem mem_digits {word : List Char} :
    word ∈ digits ↔ word ≠ [] ∧ ∀ character ∈ word, character.isDigit = true := by
  rw [digits, Language.mem_mul]
  constructor
  · rintro ⟨start, hstart, rest, hrest, rfl⟩
    obtain ⟨first, hfirst, rfl⟩ := (single_digit start).mp hstart
    refine ⟨by simp, ?_⟩
    exact List.forall_mem_cons.mpr
      ⟨hfirst, (single_digit.mem_kstar rest).mp hrest⟩
  · rintro ⟨hnonempty, hdigits⟩
    obtain ⟨first, rest, rfl⟩ := List.exists_cons_of_ne_nil hnonempty
    obtain ⟨hfirst, hrest⟩ := List.forall_mem_cons.mp hdigits
    exact ⟨[first], (single_digit _).mpr ⟨first, hfirst, rfl⟩, rest,
      (single_digit.mem_kstar rest).mpr hrest, rfl⟩

theorem mem_integers {word : List Char} :
    word ∈ integers ↔
      word ∈ digits ∨ ∃ number ∈ digits, word = '-' :: number := by
  rw [integers, Language.mem_mul]
  constructor
  · rintro ⟨sign, rfl | rfl, number, hnumber, rfl⟩
    · exact .inl hnumber
    · exact .inr ⟨number, hnumber, rfl⟩
  · rintro (hnumber | ⟨number, hnumber, rfl⟩)
    · exact ⟨[], .inl rfl, word, hnumber, rfl⟩
    · exact ⟨['-'], .inr rfl, number, hnumber, rfl⟩

def IsSign (sign : List Char) : Prop :=
  sign = [] ∨ sign = ['+'] ∨ sign = ['-']

theorem mem_exponents {word : List Char} :
    word ∈ exponents ↔ ∃ marker sign number,
      (marker = 'e' ∨ marker = 'E') ∧ IsSign sign ∧ number ∈ digits ∧
        word = marker :: (sign ++ number) := by
  rw [exponents, Language.mem_mul]
  constructor
  · rintro ⟨marker, hmarker, power, hpower, rfl⟩
    obtain ⟨sign, hsign, number, hnumber, rfl⟩ := Language.mem_mul.mp hpower
    rcases hmarker with rfl | rfl
    · exact ⟨'e', sign, number, .inl rfl, hsign, hnumber, rfl⟩
    · exact ⟨'E', sign, number, .inr rfl, hsign, hnumber, rfl⟩
  · rintro ⟨marker, sign, number, hmarker, hsign, hnumber, rfl⟩
    have hpower := Language.append_mem_mul
      (show sign ∈ optional (spelling "+" + spelling "-") from hsign) hnumber
    refine ⟨[marker], ?_, sign ++ number, hpower, rfl⟩
    rcases hmarker with rfl | rfl
    · exact .inl rfl
    · exact .inr rfl

theorem mem_floats {word : List Char} :
    word ∈ floats ↔
      (∃ whole fraction exponent,
        (∀ character ∈ whole, character.isDigit = true) ∧ fraction ∈ digits ∧
          (exponent = [] ∨ exponent ∈ exponents) ∧
            word = whole ++ '.' :: (fraction ++ exponent)) ∨
      ∃ whole ∈ digits, ∃ exponent ∈ exponents, word = whole ++ exponent := by
  rw [floats, Language.mem_add, Language.mem_mul, Language.mem_mul]
  apply or_congr
  · constructor
    · rintro ⟨whole, hwhole, rest, hrest, rfl⟩
      obtain ⟨point, hpoint, tail, htail, rfl⟩ := Language.mem_mul.mp hrest
      obtain ⟨fraction, hfraction, exponent, hexponent, rfl⟩ :=
        Language.mem_mul.mp htail
      rw [mem_spelling.mp hpoint]
      exact ⟨whole, fraction, exponent,
        (single_digit.mem_kstar whole).mp hwhole, hfraction, hexponent, rfl⟩
    · rintro ⟨whole, fraction, exponent, hwhole, hfraction, hexponent, rfl⟩
      have htail := Language.append_mem_mul hfraction
        (show exponent ∈ optional exponents from hexponent)
      exact ⟨whole, (single_digit.mem_kstar whole).mpr hwhole, _,
        Language.append_mem_mul (mem_spelling.mpr rfl) htail, rfl⟩
  · constructor
    · rintro ⟨whole, hwhole, exponent, hexponent, rfl⟩
      exact ⟨whole, hwhole, exponent, hexponent, rfl⟩
    · rintro ⟨whole, hwhole, exponent, hexponent, rfl⟩
      exact ⟨whole, hwhole, exponent, hexponent, rfl⟩

theorem mem_stringItems {item : List Char} :
    item ∈ stringItems ↔
      (∃ character, (character ≠ '\x22' ∧ character ≠ '\\') ∧
        item = [character]) ∨
      ∃ escape, isEscapable escape = true ∧ item = ['\\', escape] := by
  simp only [stringItems, Language.mem_add, mem_plain, mem_spelling,
    isEscapable, Bool.or_eq_true, decide_eq_true_eq, or_and_right, exists_or,
    exists_eq_left, or_assoc]
  rfl

theorem mem_strings {word : List Char} :
    word ∈ strings ↔ ∃ items : List (List Char),
      (∀ item ∈ items, item ∈ stringItems) ∧
        word = '\x22' :: (items.flatten ++ ['\x22']) := by
  rw [strings, Language.mem_mul]
  constructor
  · rintro ⟨opening, hopening, rest, hrest, rfl⟩
    obtain ⟨body, hbody, closing, hclosing, rfl⟩ := Language.mem_mul.mp hrest
    obtain ⟨items, rfl, hitems⟩ := Language.mem_kstar.mp hbody
    rw [mem_spelling.mp hopening, mem_spelling.mp hclosing]
    exact ⟨items, hitems, rfl⟩
  · rintro ⟨items, hitems, rfl⟩
    exact ⟨['\x22'], rfl, _,
      Language.append_mem_mul (Language.join_mem_kstar hitems)
        (mem_spelling.mpr rfl), rfl⟩

end ExprLang.Lexicon

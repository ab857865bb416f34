import ExprLang.Number.Binary64
import ExprLang.Token

/-!
# The lexicon

Five classes of words: punctuation marks, names (identifiers and keywords),
string literals, integer literals and float literals.  For each class a
function gives the length of the longest word at the head of a text, and
`match?` chooses among the classes: the longest word wins, and of equally long
words the one whose class is named first above.
-/

namespace ExprLang.Lexicon

def isBlank (character : Char) : Bool :=
  character = ' ' || character = '\t' || character = '\n' ||
    character = '\x0c' || character = '\r'

def isNameStart (character : Char) : Bool :=
  character.isAlpha || character = '$' || character = '_'

def isNamePart (character : Char) : Bool :=
  isNameStart character || character.isDigit

def isEscapable (character : Char) : Bool :=
  character = 't' || character = 'u' || character = 'n' || character = '\x22'

/-! ## Words of one class at the head of a text -/

structure Match where
  kind : TokenKind
  length : Nat
  deriving DecidableEq, Repr

def punctuation? (text : List Char) : Option Match :=
  (TokenKind.punctuation.find? fun kind =>
    kind.name.toList.isPrefixOf text).map fun kind => ⟨kind, kind.name.length⟩

def nameLength? : List Char → Option Nat
  | [] => none
  | first :: rest =>
      if isNameStart first then some ((rest.takeWhile isNamePart).length + 1)
      else none

def nameKind (name : List Char) : TokenKind :=
  (TokenKind.keywords.find? fun kind =>
    kind.name.toList == name).getD .identifier

def name? (text : List Char) : Option Match :=
  (nameLength? text).map fun length => ⟨nameKind (text.take length), length⟩

def digitsLength? (text : List Char) : Option Nat :=
  match (text.takeWhile Char.isDigit).length with
  | 0 => none
  | length + 1 => some (length + 1)

def integerLength? : List Char → Option Nat
  | '-' :: rest => (digitsLength? rest).map (· + 1)
  | text => digitsLength? text

def exponentLength? : List Char → Option Nat
  | [] => none
  | marker :: rest =>
      if marker = 'e' ∨ marker = 'E' then
        match rest with
        | '+' :: digits => (digitsLength? digits).map (· + 2)
        | '-' :: digits => (digitsLength? digits).map (· + 2)
        | digits => (digitsLength? digits).map (· + 1)
      else none

def floatLength? (text : List Char) : Option Nat :=
  let whole := (text.takeWhile Char.isDigit).length
  match text.drop whole with
  | '.' :: rest =>
      (digitsLength? rest).map fun fraction =>
        whole + 1 + fraction + (exponentLength? (rest.drop fraction)).getD 0
  | rest =>
      if whole = 0 then none else (exponentLength? rest).map (whole + ·)

def quotedLength? : List Char → Option Nat
  | [] => none
  | '\x22' :: _ => some 1
  | ['\\'] => none
  | '\\' :: escape :: rest =>
      if isEscapable escape then (quotedLength? rest).map (· + 2) else none
  | _ :: rest => (quotedLength? rest).map (· + 1)

def stringLength? : List Char → Option Nat
  | '\x22' :: rest => (quotedLength? rest).map (· + 1)
  | _ => none

/-! ## The longest word at the head of a text -/

/-- The words of all classes at the head of a text, in the order of preference. -/
def candidates (text : List Char) : List Match :=
  (punctuation? text).toList ++ (name? text).toList ++
    ((stringLength? text).map (Match.mk .stringLiteral)).toList ++
    ((integerLength? text).map (Match.mk .integerLiteral)).toList ++
    ((floatLength? text).map (Match.mk .floatLiteral)).toList

def longest : List Match → Option Match
  | [] => none
  | first :: others =>
      some (others.foldl
        (fun best next => if best.length < next.length then next else best)
        first)

def match? (text : List Char) : Option Match := longest (candidates text)

/-! ## Values of words -/

def isRepresentable (number : Int) : Bool :=
  -0x80000000 ≤ number && number ≤ 0x7fffffff

def floatDecimal (text : List Char) : Number.Decimal :=
  let whole := text.takeWhile Char.isDigit
  let rest := text.dropWhile Char.isDigit
  let fraction :=
    match rest with
    | '.' :: digits => digits.takeWhile Char.isDigit
    | _ => []
  let exponent :=
    match text.dropWhile fun character => character.isDigit || character = '.' with
    | _ :: '+' :: digits => (Number.natValue digits : Int)
    | _ :: digits => Number.signedValue digits
    | [] => 0
  ⟨Number.natValue (whole ++ fraction), exponent - fraction.length⟩

/-- The contents of a string literal: the escapes for tab, line feed and quote
are decoded, and the escape of `u` stays as it is written. -/
def unescape : List Char → List Char
  | [] => []
  | '\\' :: 't' :: rest => '\t' :: unescape rest
  | '\\' :: 'n' :: rest => '\n' :: unescape rest
  | '\\' :: '\x22' :: rest => '\x22' :: unescape rest
  | character :: rest => character :: unescape rest

def value (kind : TokenKind) (text : List Char) : TokenValue :=
  match kind with
  | .integerLiteral => .integer (Number.signedValue text)
  | .floatLiteral =>
      .binary64 (UInt64.ofNat (Number.Binary64.bitsOfDecimal (floatDecimal text)))
  | .stringLiteral => .text (String.ofList (unescape text.tail.dropLast))
  | .identifier => .text (String.ofList text)
  | _ => .absent

def isAdmissible (kind : TokenKind) (text : List Char) : Bool :=
  kind != .integerLiteral ||
    (text.countP Char.isDigit ≤ Number.digitLimit &&
      isRepresentable (Number.signedValue text))

/-! ## Every word has a first character -/

theorem digitsLength?_pos {text : List Char} {length : Nat}
    (h : digitsLength? text = some length) : 0 < length := by
  unfold digitsLength? at h
  split at h
  · simp at h
  · simp only [Option.some.injEq] at h
    omega

theorem length_pos_of_mem_candidates {text : List Char} {found : Match}
    (h : found ∈ candidates text) : 0 < found.length := by
  simp only [candidates, List.mem_append, Option.mem_toList] at h
  rcases h with (((h | h) | h) | h) | h
  · simp only [punctuation?, Option.map_eq_some_iff] at h
    obtain ⟨kind, hkind, rfl⟩ := h
    have hmem := List.mem_of_find?_eq_some hkind
    revert hmem
    clear hkind
    revert kind
    decide
  · simp only [name?, Option.map_eq_some_iff] at h
    obtain ⟨length, hlength, rfl⟩ := h
    cases text with
    | nil => simp [nameLength?] at hlength
    | cons first rest =>
        simp only [nameLength?] at hlength
        split at hlength
        · simp only [Option.some.injEq] at hlength
          simp only
          omega
        · simp at hlength
  · simp only [Option.map_eq_some_iff] at h
    obtain ⟨length, hlength, rfl⟩ := h
    unfold stringLength? at hlength
    split at hlength
    · simp only [Option.map_eq_some_iff] at hlength
      obtain ⟨body, -, rfl⟩ := hlength
      simp
    · simp at hlength
  · simp only [Option.map_eq_some_iff] at h
    obtain ⟨length, hlength, rfl⟩ := h
    unfold integerLength? at hlength
    split at hlength
    · simp only [Option.map_eq_some_iff] at hlength
      obtain ⟨body, -, rfl⟩ := hlength
      simp
    · exact digitsLength?_pos hlength
  · simp only [Option.map_eq_some_iff] at h
    obtain ⟨length, hlength, rfl⟩ := h
    simp only [floatLength?] at hlength
    split at hlength
    · simp only [Option.map_eq_some_iff] at hlength
      obtain ⟨fraction, -, rfl⟩ := hlength
      simp only
      omega
    · split at hlength
      · simp at hlength
      · simp only [Option.map_eq_some_iff] at hlength
        obtain ⟨exponent, -, rfl⟩ := hlength
        simp only
        omega

theorem longest_mem {found : Match} :
    ∀ {entries : List Match}, longest entries = some found → found ∈ entries
  | [], h => by simp [longest] at h
  | first :: others, h => by
      simp only [longest, Option.some.injEq] at h
      subst h
      induction others generalizing first with
      | nil => simp
      | cons next others ih =>
          simp only [List.foldl_cons]
          split
          · exact List.mem_cons_of_mem first (ih next)
          · rcases List.mem_cons.mp (ih first) with h | h
            · rw [h]
              exact List.mem_cons_self
            · exact List.mem_cons_of_mem first (List.mem_cons_of_mem next h)

theorem match?_length_pos {text : List Char} {found : Match}
    (h : match? text = some found) : 0 < found.length :=
  length_pos_of_mem_candidates (longest_mem h)

end ExprLang.Lexicon

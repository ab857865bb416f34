import ExprLang.Proofs.Lexicon.Lexemes
import Mathlib.InformationTheory.Coding.UniquelyDecodable

/-!
# String literals

The body of a string literal falls into items, single characters and escapes,
and in one way only, because an item that begins with a backslash is an escape
and takes one more character.  Decoding searches the body for escapes and knows
of no items.  It decodes them one by one all the same: a search that begins
where an item begins finds no escape across its end.
-/

namespace ExprLang

namespace Lexicon

/-! ## Items -/

/-- The escapes of one character each.  The escape of `u` stands for itself. -/
def shortEscapes : List (List Char) :=
  [['\\', 't'], ['\\', 'n'], ['\\', '\x22']]

def isShortEscape (item : List Char) : Bool := item ∈ shortEscapes

def decodedItem (item : List Char) : List Char :=
  if item = ['\\', 't'] then ['\t']
  else if item = ['\\', 'n'] then ['\n']
  else if item = ['\\', '\x22'] then ['\x22']
  else item

structure SplitsInto (body : List Char) (items : List (List Char)) : Prop where
  lawful : ∀ item ∈ items, item ∈ stringItems
  joined : items.flatten = body

inductive StringItem : List Char → Prop where
  | plain {character : Char} (h : character ≠ '\\') : StringItem [character]
  | tab : StringItem ['\\', 't']
  | code : StringItem ['\\', 'u']
  | feed : StringItem ['\\', 'n']
  | quote : StringItem ['\\', '\x22']

variable {item other rest others : List Char} {items : List (List Char)}

theorem stringItem_of_mem (h : item ∈ stringItems) : StringItem item := by
  rcases mem_stringItems.mp h with
    ⟨character, hplain, rfl⟩ | ⟨escape, hescape, rfl⟩
  · exact .plain hplain.2
  · simp only [isEscapable, Bool.or_eq_true, decide_eq_true_eq] at hescape
    rcases hescape with ((rfl | rfl) | rfl) | rfl
    · exact .tab
    · exact .code
    · exact .feed
    · exact .quote

theorem StringItem.ne_nil (h : StringItem item) : item ≠ [] := by
  cases h <;> exact List.cons_ne_nil _ _

theorem eq_of_item_append (hitem : item ∈ stringItems)
    (hother : other ∈ stringItems) (h : item ++ rest = other ++ others) :
    item = other ∧ rest = others := by
  rcases mem_stringItems.mp hitem with
    ⟨character, hplain, rfl⟩ | ⟨escape, -, rfl⟩ <;>
  rcases mem_stringItems.mp hother with
    ⟨found, hfound, rfl⟩ | ⟨found, -, rfl⟩
  · obtain ⟨rfl, rfl⟩ := List.cons.inj h
    exact ⟨rfl, rfl⟩
  · obtain ⟨rfl, -⟩ := List.cons.inj h
    exact absurd rfl hplain.2
  · obtain ⟨rfl, -⟩ := List.cons.inj h
    exact absurd rfl hfound.2
  · obtain ⟨rfl, rfl⟩ := List.cons.inj (List.cons.inj h).2
    exact ⟨rfl, rfl⟩

theorem stringItems_uniquelyDecodable :
    InformationTheory.UniquelyDecodable stringItems := by
  intro items others hitems hothers h
  have hnonempty : ∀ item ∈ stringItems, item ≠ [] :=
    fun item hitem => (stringItem_of_mem hitem).ne_nil
  induction items generalizing others with
  | nil =>
      cases others with
      | nil => rfl
      | cons other others =>
          have hempty := (List.append_eq_nil_iff.mp h.symm).1
          exact absurd hempty (hnonempty other (hothers other List.mem_cons_self))
  | cons item items ih =>
      obtain ⟨hitem, hrest⟩ := List.forall_mem_cons.mp hitems
      cases others with
      | nil =>
          have hempty := (List.append_eq_nil_iff.mp h).1
          exact absurd hempty (hnonempty item hitem)
      | cons other others =>
          obtain ⟨hother, hothersRest⟩ := List.forall_mem_cons.mp hothers
          obtain ⟨hsame, htail⟩ := eq_of_item_append hitem hother h
          rw [hsame, ih others hrest hothersRest htail]

theorem SplitsInto.unique {body : List Char} {others : List (List Char)}
    (h : SplitsInto body items) (hothers : SplitsInto body others) :
    others = items :=
  stringItems_uniquelyDecodable others items hothers.lawful h.lawful
    (hothers.joined.trans h.joined.symm)

/-! ## Decoding -/

theorem unescape_plain {character : Char} (h : character ≠ '\\') :
    unescape (character :: rest) = character :: unescape rest := by
  rw [unescape.eq_def]
  split <;> simp_all

theorem decodedItem_plain (character : Char) :
    decodedItem [character] = [character] := by
  simp [decodedItem]

theorem unescape_item (h : StringItem item) :
    unescape (item ++ rest) = decodedItem item ++ unescape rest := by
  cases h with
  | plain hplain =>
      rw [decodedItem_plain]
      exact unescape_plain hplain
  | code =>
      -- The backslash stays, and the search goes on behind it.
      change '\\' :: unescape ('u' :: rest) = _
      rw [unescape_plain (by decide)]
      rfl
  | tab | feed | quote => rfl

theorem unescape_flatten (h : ∀ item ∈ items, item ∈ stringItems) :
    unescape items.flatten = items.flatMap decodedItem := by
  induction items with
  | nil => rfl
  | cons item items ih =>
      obtain ⟨hitem, hitems⟩ := List.forall_mem_cons.mp h
      rw [List.flatten_cons, unescape_item (stringItem_of_mem hitem), ih hitems,
        List.flatMap_cons]

/-! ## What is left after decoding -/

theorem length_decodedItem (h : StringItem item) :
    (decodedItem item).length + (if isShortEscape item then 1 else 0) =
      item.length := by
  cases h with
  | plain => simp [decodedItem_plain, isShortEscape, shortEscapes]
  | tab | code | feed | quote => rfl

theorem length_decoded (h : ∀ item ∈ items, item ∈ stringItems) :
    (items.flatMap decodedItem).length + items.countP isShortEscape =
      items.flatten.length := by
  induction items with
  | nil => rfl
  | cons item items ih =>
      obtain ⟨hitem, hitems⟩ := List.forall_mem_cons.mp h
      have hlength := length_decodedItem (stringItem_of_mem hitem)
      rw [List.flatMap_cons, List.length_append, List.countP_cons,
        List.flatten_cons, List.length_append, ← ih hitems, ← hlength]
      omega

/-- Every backslash has a `u` behind it. -/
def BackslashesMarked (text : List Char) : Prop :=
  ∀ index, text[index]? = some '\\' → text[index + 1]? = some 'u'

theorem BackslashesMarked.append {first second : List Char}
    (hfirst : BackslashesMarked first) (hsecond : BackslashesMarked second) :
    BackslashesMarked (first ++ second) := by
  intro index h
  rcases Nat.lt_or_ge index first.length with hindex | hindex
  · rw [List.getElem?_append_left hindex] at h
    have hmark := hfirst index h
    have hnext := (List.getElem?_eq_some_iff.mp hmark).1
    rw [List.getElem?_append_left hnext, hmark]
  · rw [List.getElem?_append_right hindex] at h
    have hmark := hsecond _ h
    rw [List.getElem?_append_right (by omega), Nat.sub_add_comm hindex, hmark]

theorem backslashesMarked_single {character : Char} (h : character ≠ '\\') :
    BackslashesMarked [character] := by
  intro index hindex
  rw [List.getElem?_singleton] at hindex
  split at hindex
  · exact absurd (Option.some.inj hindex) h
  · contradiction

theorem backslashesMarked_code : BackslashesMarked ['\\', 'u'] := by
  intro index h
  match index with
  | 0 => rfl
  | 1 => contradiction
  | _ + 2 => contradiction

theorem backslashesMarked_decodedItem (h : StringItem item) :
    BackslashesMarked (decodedItem item) := by
  cases h with
  | plain hplain =>
      rw [decodedItem_plain]
      exact backslashesMarked_single hplain
  | code => exact backslashesMarked_code
  | tab | feed | quote => exact backslashesMarked_single (by decide)

theorem backslashesMarked_decoded (h : ∀ item ∈ items, item ∈ stringItems) :
    BackslashesMarked (items.flatMap decodedItem) := by
  induction items with
  | nil =>
      intro index hindex
      contradiction
  | cons item items ih =>
      obtain ⟨hitem, hitems⟩ := List.forall_mem_cons.mp h
      exact (backslashesMarked_decodedItem (stringItem_of_mem hitem)).append
        (ih hitems)

end Lexicon

open Lexicon

structure Token.Decodes (token : Token) (body : List Char)
    (items : List (List Char)) (contents : String) : Prop where
  lexeme : token.lexeme.toList = '\x22' :: (body ++ ['\x22'])
  value : token.value = .text contents
  decoded : contents.toList = items.flatMap decodedItem
  length : (contents.length : Int) =
    token.lexeme.length - 2 - items.countP isShortEscape
  backslashes : BackslashesMarked contents.toList

theorem Token.IsLexical.decodes {token : Token} (h : token.IsLexical)
    (hkind : token.kind = .stringLiteral) :
    ∃ body items contents, SplitsInto body items ∧
      token.Decodes body items contents := by
  have hmem := h.lexeme.mem
  have hvalue := h.value
  rw [hkind] at hmem hvalue
  obtain ⟨items, hitems, hlexeme⟩ := mem_strings.mp hmem
  refine ⟨items.flatten, items, String.ofList (items.flatMap decodedItem),
    ⟨hitems, rfl⟩, hlexeme, ?_, String.toList_ofList, ?_, ?_⟩
  · rw [hvalue, Lexicon.value, hlexeme, List.tail_cons, List.dropLast_concat,
      unescape_flatten hitems]
  · have hlength := length_decoded hitems
    rw [← String.length_toList, ← String.length_toList, hlexeme,
      String.toList_ofList, List.length_cons, List.length_append,
      List.length_singleton, ← hlength]
    omega
  · rw [String.toList_ofList]
    exact backslashesMarked_decoded hitems

/-- Whatever the bag holds, the body of every string literal of a source splits
into items in exactly one way, and its value is made up of what the items stand
for. -/
theorem tokenize_decodes_strings (bag : Bag) (source : String) :
    ∀ token ∈ (bag.tokenize source).1.toList, token.kind = .stringLiteral →
      ∃ body items contents,
        (∀ others, SplitsInto body others ↔ others = items) ∧
          token.Decodes body items contents := by
  intro token hmem hkind
  have hbody : token ∈ (tokenize source).tokens.body := by
    rcases List.mem_append.mp hmem with hbody | hterminal
    · exact hbody
    · rw [List.mem_singleton.mp hterminal] at hkind
      contradiction
  obtain ⟨body, items, contents, hsplit, hdecodes⟩ :=
    (tokenize_isLexical source token hbody).decodes hkind
  refine ⟨body, items, contents, fun others => ⟨?_, ?_⟩, hdecodes⟩
  · exact hsplit.unique
  · rintro rfl
    exact hsplit

def quotedEscapes : Token :=
  Piece.token 5 .stringLiteral "\x22\\u\\t\\\x22\x22".toList

theorem quotedEscapes_decoded :
    quotedEscapes ∈
        (Bag.empty.tokenize "x := \x22\\u\\t\\\x22\x22").1.toList ∧
      quotedEscapes.kind = .stringLiteral ∧
      ∃ body items, (∀ others, SplitsInto body others ↔ others = items) ∧
        quotedEscapes.Decodes body items "\\u\t\x22" := by
  have hmem : quotedEscapes ∈
      (Bag.empty.tokenize "x := \x22\\u\\t\\\x22\x22").1.toList := by
    decide +kernel
  obtain ⟨body, items, contents, hunique, hdecodes⟩ :=
    tokenize_decodes_strings Bag.empty _ quotedEscapes hmem rfl
  have hcontents : quotedEscapes.value = .text "\\u\t\x22" := by
    decide +kernel
  cases hdecodes.value.symm.trans hcontents
  exact ⟨hmem, rfl, body, items, hunique, hdecodes⟩

end ExprLang

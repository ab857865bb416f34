import ExprLang.Proofs.Lexicon.Placement

/-!
# Texts cut at blanks

A text may be cut at blanks and tokenized part by part, as long as no string is
left open before a cut.  The tokens and the diagnostics of the parts, moved to
where the parts stand, are then those of the whole text.
-/

namespace ExprLang

/-! ## Two parts -/

def Diagnostic.shifted (distance : Nat) (diagnostic : Diagnostic) : Diagnostic :=
  { diagnostic with span := diagnostic.span.shifted distance }

theorem Fault.diagnostic_shifted (distance : Nat) (fault : Fault) :
    (fault.shifted distance).diagnostic = fault.diagnostic.shifted distance := by
  cases fault <;> rfl

theorem Fault.map_diagnostic_shifted (distance : Nat) (faults : List Fault) :
    (faults.map (Fault.shifted distance)).map Fault.diagnostic =
      (faults.map Fault.diagnostic).map (Diagnostic.shifted distance) := by
  rw [List.map_map, List.map_map]
  exact List.map_congr_left fun fault _ => fault.diagnostic_shifted distance

namespace Tokenization

def followedBy (first : Tokenization) (distance : Nat)
    (second : Tokenization) : Tokenization :=
  ⟨⟨first.tokens.body ++ second.tokens.body.map (Token.shifted distance),
      second.tokens.terminal.shifted distance, second.tokens.terminal_kind⟩,
    first.faults ++ second.faults.map (Fault.shifted distance)⟩

theorem toList_followedBy (first : Tokenization) (distance : Nat)
    (second : Tokenization) :
    (first.followedBy distance second).tokens.toList =
      first.tokens.body ++
        second.tokens.toList.map (Token.shifted distance) := by
  simp [followedBy, TokenSequence.toList]

end Tokenization

/-- No diagnostic of the text has a quote in its literal. -/
def LeavesNoQuote (source : String) : Prop :=
  ∀ diagnostic ∈ (Bag.empty.tokenize source).2.entries,
    '\x22' ∉ diagnostic.span.literal.toList

def IsGap (gap : String) : Prop :=
  gap ≠ "" ∧ ∀ character ∈ gap.toList, character ∈ Lexicon.blanks

instance (source : String) : Decidable (LeavesNoQuote source) :=
  inferInstanceAs (Decidable (∀ _ ∈ _, _))

instance (gap : String) : Decidable (IsGap gap) :=
  @instDecidableAnd _ _ inferInstance (List.decidableBAll _ gap.toList)

theorem LeavesNoQuote.faults {source : String} (h : LeavesNoQuote source) :
    ∀ fault ∈ (tokenize source).faults,
      '\x22' ∉ fault.span.literal.toList := by
  intro fault hfault
  have hreported : fault.diagnostic ∈ (Bag.empty.tokenize source).2.entries := by
    simp only [Bag.tokenize, Bag.append, Bag.empty, List.nil_append]
    exact List.mem_map_of_mem hfault
  exact h fault.diagnostic hreported

theorem tokenize_cut {first gap : String} (hfirst : LeavesNoQuote first)
    (hgap : IsGap gap) (second : String) :
    tokenize (first ++ gap ++ second) =
      (tokenize first).followedBy (first.length + gap.length)
        (tokenize second) := by
  obtain ⟨hbody, hterminal, hfaults⟩ :=
    tokenize_joined hfirst.faults hgap.1 hgap.2 second
  cases hwhole : tokenize (first ++ gap ++ second) with
  | mk tokens faults =>
      cases tokens with
      | mk body terminal terminal_kind =>
          rw [hwhole] at hbody hterminal hfaults
          simp only at hbody hterminal hfaults
          subst hbody hterminal hfaults
          rfl

/-! ## Any number of parts -/

/-- A part of a text with the blanks at which it is cut from what follows. -/
structure Part where
  text : String
  gap : String
  deriving DecidableEq, Repr

namespace Part

def length (part : Part) : Nat := part.text.length + part.gap.length

/-- The part may be tokenized apart from what follows it. -/
def IsSeparate (part : Part) : Prop :=
  LeavesNoQuote part.text ∧ IsGap part.gap

def join : List Part → String → String
  | [], last => last
  | part :: parts, last => part.text ++ part.gap ++ join parts last

def tokenizeEach : List Part → String → Tokenization
  | [], last => tokenize last
  | part :: parts, last =>
      (tokenize part.text).followedBy part.length (tokenizeEach parts last)

theorem tokenize_join {parts : List Part}
    (hparts : ∀ part ∈ parts, part.IsSeparate) (last : String) :
    tokenize (join parts last) = tokenizeEach parts last := by
  induction parts with
  | nil => rfl
  | cons part parts ih =>
      obtain ⟨⟨htext, hgap⟩, hothers⟩ := List.forall_mem_cons.mp hparts
      rw [join, tokenize_cut htext hgap, ih hothers]
      rfl

end Part

/-- Tokenizing a text that is cut at blanks yields the tokens of the first part
without its end of text, and those of the second moved on by what stands before
it.  The diagnostics are added in the same order.  So a text that is cut at any
number of such places may be tokenized part by part. -/
theorem Bag.tokenize_at_blanks (bag : Bag) :
    (∀ first gap second, LeavesNoQuote first → IsGap gap →
      let distance := first.length + gap.length
      let whole := bag.tokenize (first ++ gap ++ second)
      whole.1.toList = (Bag.empty.tokenize first).1.body ++
          (Bag.empty.tokenize second).1.toList.map (Token.shifted distance) ∧
        whole.2.entries = bag.entries ++
          ((Bag.empty.tokenize first).2.entries ++
            (Bag.empty.tokenize second).2.entries.map
              (Diagnostic.shifted distance))) ∧
      ∀ parts last, (∀ part ∈ parts, part.IsSeparate) →
        ExprLang.tokenize (Part.join parts last) =
          Part.tokenizeEach parts last := by
  refine ⟨?_, fun parts last hparts => Part.tokenize_join hparts last⟩
  intro first gap second hfirst hgap distance whole
  have hwhole := ExprLang.tokenize_cut hfirst hgap second
  refine ⟨?_, ?_⟩
  · simp only [whole, tokenize, hwhole]
    exact Tokenization.toList_followedBy _ _ _
  · simp only [whole, tokenize, hwhole, append, empty, List.nil_append,
      Tokenization.followedBy, List.map_append]
    rw [Fault.map_diagnostic_shifted]

theorem cut_of_faulty :
    LeavesNoQuote "#x 9999999999" ∧ IsGap "\n\t" ∧
      ((Bag.empty.tokenize ("#x 9999999999" ++ "\n\t" ++ "\x22y 1")).1.toList =
        (Bag.empty.tokenize "#x 9999999999").1.body ++
          (Bag.empty.tokenize "\x22y 1").1.toList.map (Token.shifted 15)) ∧
      (Bag.empty.tokenize ("#x 9999999999" ++ "\n\t" ++ "\x22y 1")).2.size = 3 := by
  have hfirst : LeavesNoQuote "#x 9999999999" := by decide +kernel
  have hgap : IsGap "\n\t" := by decide +kernel
  obtain ⟨htokens, hentries⟩ :=
    (Bag.tokenize_at_blanks Bag.empty).1 "#x 9999999999" "\n\t" "\x22y 1" hfirst hgap
  refine ⟨hfirst, hgap, htokens, ?_⟩
  rw [Bag.size, hentries]
  decide +kernel

end ExprLang

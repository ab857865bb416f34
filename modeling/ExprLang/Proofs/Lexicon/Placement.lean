import ExprLang.Proofs.Lexicon.Concatenation
import ExprLang.Proofs.Tree.Displacement
import ExprLang.Tokenization

/-!
# Where pieces stand

Up to places, tokens depend on their own pieces only.  Their places depend on
the length of what comes before: pieces further on give the tokens and faults
shifted.  So texts joined by blanks have the tokens and faults of the first
followed by those of the second shifted, unless the first leaves a quote open.
-/

namespace ExprLang

namespace Piece

/-! ## Tokens without places -/

def bareTokens : Piece → List Token
  | word kind text => [(token 0 kind text).unplaced]
  | blank _ => []
  | unknown _ => []

theorem map_unplaced_placeTokens (offset : Nat) (pieces : List Piece) :
    (placeTokens offset pieces).map Token.unplaced =
      pieces.flatMap bareTokens := by
  induction pieces generalizing offset with
  | nil => rfl
  | cons piece pieces ih =>
      cases piece with
      | blank character => exact ih (offset + 1)
      | unknown stretch => exact ih (offset + stretch.length)
      | word kind word =>
          rw [placeTokens, List.map_cons, ih]
          rfl

theorem bareTokens_of_isLexical {token : Token} (h : token.IsLexical) :
    bareTokens (.word token.kind token.lexeme.toList) = [token.unplaced] := by
  simp [bareTokens, Piece.token, Token.unplaced, ← h.value]

def isKnown : Piece → Bool
  | unknown _ => false
  | _ => true

theorem placeUnknown_eq_nil {pieces : List Piece}
    (h : ∀ piece ∈ pieces, piece.isKnown = true) (offset : Nat) :
    placeUnknown offset pieces = [] := by
  induction pieces generalizing offset with
  | nil => rfl
  | cons piece pieces ih =>
      obtain ⟨hpiece, hpieces⟩ := List.forall_mem_cons.mp h
      cases piece with
      | blank character => exact ih hpieces (offset + 1)
      | word kind word => exact ih hpieces (offset + word.length)
      | unknown stretch => contradiction

end Piece

/-! ## Pieces further on -/

theorem Span.covering_shifted (offset distance : Nat) (text : List Char) :
    covering (offset + distance) text =
      (covering offset text).shifted distance := by
  simp only [shifted, covering, Span.mk.injEq, and_true]
  omega

namespace Piece

theorem token_shifted (offset distance : Nat) (kind : TokenKind)
    (text : List Char) :
    token (offset + distance) kind text =
      (token offset kind text).shifted distance := by
  rw [token, Span.covering_shifted]
  rfl

theorem placed_shifted (offset distance : Nat) (pieces : List Piece) :
    placeTokens (offset + distance) pieces =
        (placeTokens offset pieces).map (Token.shifted distance) ∧
      placeUnknown (offset + distance) pieces =
        (placeUnknown offset pieces).map (Fault.shifted distance) := by
  induction pieces generalizing offset with
  | nil => exact ⟨rfl, rfl⟩
  | cons piece pieces ih =>
      obtain ⟨htokens, hfaults⟩ := ih (offset + piece.text.length)
      rw [Nat.add_right_comm] at htokens hfaults
      cases piece with
      | blank character => exact ⟨htokens, hfaults⟩
      | word kind word =>
          have htoken := token_shifted offset distance kind word
          exact ⟨congrArg₂ List.cons htoken htokens, hfaults⟩
      | unknown stretch =>
          have hfault := congrArg Fault.unknownToken
            (Span.covering_shifted offset distance stretch)
          exact ⟨htokens, congrArg₂ List.cons hfault hfaults⟩

theorem placed_append (offset : Nat) (first second : List Piece) :
    placeTokens offset (first ++ second) =
        placeTokens offset first ++
          placeTokens (offset + (first.flatMap text).length) second ∧
      placeUnknown offset (first ++ second) =
        placeUnknown offset first ++
          placeUnknown (offset + (first.flatMap text).length) second := by
  induction first generalizing offset with
  | nil => exact ⟨rfl, rfl⟩
  | cons piece first ih =>
      obtain ⟨htokens, hfaults⟩ := ih (offset + piece.text.length)
      rw [Nat.add_assoc, ← List.length_append, ← List.flatMap_cons] at htokens hfaults
      cases piece with
      | blank character => exact ⟨htokens, hfaults⟩
      | word kind word => exact ⟨congrArg _ htokens, hfaults⟩
      | unknown stretch => exact ⟨htokens, congrArg _ hfaults⟩

theorem placed_blanks (offset : Nat) (gap : List Char) :
    placeTokens offset (gap.map blank) = [] ∧
      placeUnknown offset (gap.map blank) = [] := by
  induction gap generalizing offset with
  | nil => exact ⟨rfl, rfl⟩
  | cons character gap ih => exact ih (offset + 1)

theorem placed_joined (offset : Nat) (first second : List Piece)
    (gap : List Char) :
    let distance := (first.flatMap text).length + gap.length
    placeTokens offset (first ++ (gap.map blank ++ second)) =
        placeTokens offset first ++
          (placeTokens offset second).map (Token.shifted distance) ∧
      placeUnknown offset (first ++ (gap.map blank ++ second)) =
        placeUnknown offset first ++
          (placeUnknown offset second).map (Fault.shifted distance) := by
  intro distance
  have hgap : ((gap.map blank).flatMap text).length = gap.length := by
    simp [List.flatMap_map, text]
  obtain ⟨htokens, hfaults⟩ :=
    placed_append offset first (gap.map blank ++ second)
  obtain ⟨hnext, hnextFaults⟩ :=
    placed_append (offset + (first.flatMap text).length) (gap.map blank) second
  obtain ⟨hnone, hnoFaults⟩ :=
    placed_blanks (offset + (first.flatMap text).length) gap
  obtain ⟨hshifted, hshiftedFaults⟩ := placed_shifted offset distance second
  rw [hnone, List.nil_append, hgap, Nat.add_assoc, hshifted] at hnext
  rw [hnoFaults, List.nil_append, hgap, Nat.add_assoc, hshiftedFaults] at hnextFaults
  exact ⟨by rw [htokens, hnext], by rw [hfaults, hnextFaults]⟩

/-! ## Joined texts -/

/-- An unknown stretch with a quote in it would be the text of a fault. -/
theorem closed_of_placeUnknown {offset : Nat} {pieces : List Piece}
    (h : ∀ fault ∈ placeUnknown offset pieces,
      '\x22' ∉ fault.span.literal.toList) : Closed pieces := by
  induction pieces generalizing offset with
  | nil => simp [Closed]
  | cons piece pieces ih =>
      rintro stretch hstretch
      cases piece with
      | blank character => exact ih h stretch (by simpa using hstretch)
      | word kind word => exact ih h stretch (by simpa using hstretch)
      | unknown other =>
          obtain ⟨hother, hothers⟩ := List.forall_mem_cons.mp h
          rcases List.mem_cons.mp hstretch with heq | hstretch
          · cases heq
            simpa [Fault.span, Span.covering] using hother
          · exact ih hothers stretch hstretch

end Piece

theorem tokenize_joined {first gap : String}
    (hclosed : ∀ fault ∈ (tokenize first).faults,
      '\x22' ∉ fault.span.literal.toList)
    (hgap : gap ≠ "")
    (hblank : ∀ character ∈ gap.toList, character ∈ Lexicon.blanks)
    (second : String) :
    let distance := first.length + gap.length
    (tokenize (first ++ gap ++ second)).tokens.body =
        (tokenize first).tokens.body ++
          (tokenize second).tokens.body.map (Token.shifted distance) ∧
      (tokenize (first ++ gap ++ second)).tokens.terminal =
        (tokenize second).tokens.terminal.shifted distance ∧
      (tokenize (first ++ gap ++ second)).faults =
        (tokenize first).faults ++
          (tokenize second).faults.map (Fault.shifted distance) := by
  have htext : (first ++ gap ++ second).toList =
      first.toList ++ (gap.toList ++ second.toList) := by
    simp
  have hpieces := Piece.pieces_joined (Piece.closed_of_placeUnknown hclosed)
    (by simpa using hgap) hblank second.toList
  have hplaced := Piece.placed_joined 0 (Piece.pieces first.toList)
    (Piece.pieces second.toList) gap.toList
  rw [Piece.flatMap_text_pieces, ← hpieces, ← htext, String.length_toList,
    String.length_toList] at hplaced
  have hlength : (first ++ gap ++ second).toList.length =
      second.toList.length + (first.length + gap.length) := by
    simp only [String.length_toList, String.length_append]
    omega
  refine ⟨hplaced.1, ?_, hplaced.2⟩
  simp only [tokenize, Token.endOfText]
  rw [hlength, Span.covering_shifted]
  rfl

end ExprLang

import ExprLang.Lexicon

/-!
# The pieces of a text

A text falls into blanks, words and unknown stretches, one after another and
without gaps: `flatMap_text_pieces` says that their texts joined are the text.
Pieces hold no offsets, so the same piece may stand anywhere.
-/

namespace ExprLang

inductive Piece where
  | blank (character : Char)
  | word (kind : TokenKind) (text : List Char)
  | unknown (text : List Char)
  deriving DecidableEq, Repr

namespace Piece

def text : Piece → List Char
  | blank character => [character]
  | word _ text => text
  | unknown text => text

def ofWord (kind : TokenKind) (text : List Char) : Piece :=
  if Lexicon.isAdmissible kind text then .word kind text else .unknown text

def unknownLength : List Char → Nat
  | [] => 0
  | character :: rest =>
      if Lexicon.isBlank character ||
          (Lexicon.match? (character :: rest)).isSome then 0
      else unknownLength rest + 1

def pieces (text : List Char) : List Piece :=
  match text with
  | [] => []
  | character :: rest =>
      if Lexicon.isBlank character then .blank character :: pieces rest
      else
        match _ : Lexicon.match? (character :: rest) with
        | some found =>
            ofWord found.kind ((character :: rest).take found.length) ::
              pieces ((character :: rest).drop found.length)
        | none =>
            .unknown (character :: rest.take (unknownLength rest)) ::
              pieces (rest.drop (unknownLength rest))
termination_by text.length
decreasing_by
  · simp
  · rename_i hfound
    have hpos := Lexicon.match?_length_pos hfound
    simp only [List.length_drop, List.length_cons]
    omega
  · simp only [List.length_drop, List.length_cons]
    omega

@[simp] theorem pieces_nil : pieces [] = [] := by
  rw [pieces]

theorem pieces_of_blank {character : Char} (rest : List Char)
    (hblank : Lexicon.isBlank character = true) :
    pieces (character :: rest) = .blank character :: pieces rest := by
  rw [pieces, if_pos hblank]

theorem pieces_of_match {character : Char} {rest : List Char}
    {found : Lexicon.Match} (hblank : Lexicon.isBlank character = false)
    (hfound : Lexicon.match? (character :: rest) = some found) :
    pieces (character :: rest) =
      ofWord found.kind ((character :: rest).take found.length) ::
        pieces ((character :: rest).drop found.length) := by
  rw [pieces, if_neg (by simp [hblank])]
  split
  · rename_i other hother
    rw [hfound] at hother
    cases hother
    rfl
  · rename_i hnone
    rw [hfound] at hnone
    cases hnone

theorem pieces_of_no_match {character : Char} {rest : List Char}
    (hblank : Lexicon.isBlank character = false)
    (hfound : Lexicon.match? (character :: rest) = none) :
    pieces (character :: rest) =
      .unknown (character :: rest.take (unknownLength rest)) ::
        pieces (rest.drop (unknownLength rest)) := by
  rw [pieces, if_neg (by simp [hblank])]
  split
  · rename_i other hother
    rw [hfound] at hother
    cases hother
  · rfl

@[simp] theorem text_ofWord (kind : TokenKind) (text : List Char) :
    (ofWord kind text).text = text := by
  unfold ofWord
  split <;> rfl

theorem flatMap_text_pieces (text : List Char) :
    (pieces text).flatMap Piece.text = text := by
  fun_induction pieces text with
  | case1 => rfl
  | case2 character rest hblank ih => simp [Piece.text, ih]
  | case3 character rest hblank found hfound ih =>
      simp [ih]
  | case4 character rest hblank hfound ih =>
      simp [Piece.text, ih]

end Piece

end ExprLang

import ExprLang.Proofs.Lexicon.Lexemes

/-!
# Texts joined at a blank

A blank ends every unknown stretch and every word but a string.  So if a text
in which no quote is left open goes on with a blank, its pieces stay as they
are, and the pieces of what follows come after them.
-/

namespace ExprLang

namespace Lexicon

/-! ## Matches before a blank -/

theorem not_beginsWord_append {text : List Char} {blank : Char}
    (hblank : blank ∈ blanks) (htext : text ≠ [])
    (hquote : text.head? ≠ some '\x22') (h : ¬ BeginsWord text)
    (rest : List Char) : ¬ BeginsWord (text ++ blank :: rest) := by
  rintro ⟨kind, word, hinitial, hword⟩
  rcases prefix_append_cons_cases hinitial with hwithin | ⟨more, rfl⟩
  · exact h ⟨kind, word, hwithin, hword⟩
  · obtain rfl := blanks_separate.stringLiteral_of_crossing hblank htext hword
    obtain ⟨body, hbody⟩ := strings_start hword
    have hhead := congrArg List.head? hbody
    rw [List.head?_append_of_ne_nil _ htext] at hhead
    exact hquote hhead

theorem match?_append {text : List Char} {blank : Char}
    (hblank : blank ∈ blanks) (htext : text ≠ [])
    (hclosed : match? text = none → text.head? ≠ some '\x22')
    (rest : List Char) : match? (text ++ blank :: rest) = match? text := by
  cases hmatch : match? text with
  | none =>
      exact match?_eq_none_iff.mpr (not_beginsWord_append hblank htext
        (hclosed hmatch) (match?_eq_none_iff.mp hmatch) rest)
  | some found =>
      obtain ⟨hle, hleading⟩ := match?_eq_some_iff.mp hmatch
      refine match?_eq_some_iff.mpr ⟨?_, ?_⟩
      · rw [List.length_append]
        omega
      · rw [List.take_append_of_le_length hle]
        exact hleading.append blanks_separate hblank rest

theorem unknownLength_append {text : List Char} {blank : Char}
    (hblank : blank ∈ blanks)
    (hclosed : '\x22' ∉ text.take (Piece.unknownLength text))
    (rest : List Char) :
    Piece.unknownLength (text ++ blank :: rest) = Piece.unknownLength text := by
  induction text with
  | nil => simp [Piece.unknownLength, (isBlank_iff blank).mpr hblank]
  | cons character text ih =>
      have hmatch : match? (character :: text ++ blank :: rest) =
          match? (character :: text) := by
        refine match?_append hblank (List.cons_ne_nil _ _) ?_ rest
        rintro hnone hquote
        obtain rfl := Option.some.inj hquote
        have hunblank : isBlank '\x22' = false := by decide
        simp [Piece.unknownLength, hunblank, hnone] at hclosed
      rw [List.cons_append] at hmatch
      rw [List.cons_append, Piece.unknownLength, Piece.unknownLength, hmatch]
      split
      case isTrue => rfl
      case isFalse hunknown =>
        rw [Piece.unknownLength, if_neg hunknown, List.take_succ_cons] at hclosed
        rw [ih fun hmem => hclosed (List.mem_cons_of_mem character hmem)]

end Lexicon

namespace Piece

open Lexicon

/-- No unknown stretch holds a quote. -/
def Closed (pieces : List Piece) : Prop :=
  ∀ stretch, .unknown stretch ∈ pieces → '\x22' ∉ stretch

theorem Closed.tail {piece : Piece} {pieces : List Piece}
    (h : Closed (piece :: pieces)) : Closed pieces :=
  fun stretch hstretch => h stretch (List.mem_cons_of_mem piece hstretch)

theorem pieces_append {text : List Char} {blank : Char}
    (hblank : blank ∈ blanks) (hclosed : Closed (pieces text))
    (rest : List Char) :
    pieces (text ++ blank :: rest) = pieces text ++ pieces (blank :: rest) := by
  fun_induction pieces text with
  | case1 => rfl
  | case2 character text hcharacter ih =>
      rw [List.cons_append, pieces_of_blank _ hcharacter, ih hclosed.tail]
      rfl
  | case3 character text hcharacter found hfound ih =>
      have hmatch : match? (character :: (text ++ blank :: rest)) =
          some found :=
        (match?_append hblank (List.cons_ne_nil _ _) (by simp [hfound])
          rest).trans hfound
      have hle := (match?_eq_some_iff.mp hfound).1
      rw [List.cons_append, pieces_of_match (by simpa using hcharacter) hmatch,
        ← List.cons_append, List.take_append_of_le_length hle,
        List.drop_append_of_le_length hle, ih hclosed.tail]
      rfl
  | case4 character text hcharacter hnone ih =>
      -- Only a string that the stretch begins could reach over the blank.
      have hstretch := hclosed _ List.mem_cons_self
      rw [List.mem_cons, not_or] at hstretch
      have hmatch : match? (character :: (text ++ blank :: rest)) = none :=
        (match?_append hblank (List.cons_ne_nil _ _)
          (by simpa using fun _ => Ne.symm hstretch.1) rest).trans hnone
      have hlength := unknownLength_append hblank hstretch.2 rest
      have hle := (unknownLength_spec text).1
      rw [List.cons_append,
        pieces_of_no_match (by simpa using hcharacter) hmatch, hlength,
        List.take_append_of_le_length hle, List.drop_append_of_le_length hle,
        ih hclosed.tail]
      rfl

theorem pieces_of_blanks {gap : List Char}
    (hgap : ∀ character ∈ gap, character ∈ blanks) (rest : List Char) :
    pieces (gap ++ rest) = gap.map blank ++ pieces rest := by
  induction gap with
  | nil => rfl
  | cons character gap ih =>
      obtain ⟨hcharacter, hothers⟩ := List.forall_mem_cons.mp hgap
      rw [List.cons_append,
        pieces_of_blank _ ((isBlank_iff character).mpr hcharacter), ih hothers]
      rfl

theorem pieces_joined {first gap : List Char}
    (hclosed : Closed (pieces first)) (hgap : gap ≠ [])
    (hblank : ∀ character ∈ gap, character ∈ blanks) (second : List Char) :
    pieces (first ++ (gap ++ second)) =
      pieces first ++ (gap.map blank ++ pieces second) := by
  obtain ⟨character, others, rfl⟩ := List.exists_cons_of_ne_nil hgap
  rw [← pieces_of_blanks hblank second]
  exact pieces_append (hblank character List.mem_cons_self) hclosed _

end Piece

end ExprLang

import ExprLang.Proofs.Lexicon.Numerals
import ExprLang.Proofs.Reading.Ingredients

/-!
# Numbers that can be written

A number can be written unless it has too many digits.  The numbers of a source
have ten at most, so every tree that is read from a source can be shown.
-/

namespace ExprLang

theorem Number.isWithinLimit_iff {number : Int} :
    Number.isWithinLimit number = true ↔
      number.natAbs < 10 ^ Number.digitLimit := by
  rw [Number.isWithinLimit, decide_eq_true_eq]
  exact Nat.length_toDigits_le_iff (by decide) (by decide)

theorem Lexicon.isWithinLimit_of_isRepresentable {number : Int}
    (h : isRepresentable number = true) : Number.isWithinLimit number = true := by
  simp only [isRepresentable, Bool.and_eq_true, decide_eq_true_eq] at h
  have hten : number.natAbs < 10 ^ 10 := by omega
  have hlimit : (10 : Nat) ≤ Number.digitLimit := by decide
  exact Number.isWithinLimit_iff.mpr
    (hten.trans_le (Nat.pow_le_pow_right (by decide) hlimit))

namespace Node

theorem isRepresentable_of_isLexical {token : Token} (h : token.IsLexical)
    (hkind : token.kind = .integerLiteral) :
    Lexicon.isRepresentable token.number = true := by
  have hvalue := h.value
  have hadmissible := h.lexeme.admissible
  rw [hkind] at hvalue hadmissible
  simp only [Lexicon.isAdmissible, bne_self_eq_false, Bool.false_or,
    Bool.and_eq_true] at hadmissible
  rw [Token.number, hvalue]
  exact hadmissible.2

theorem MadeOf.numbersWithinLimit {node : Node}
    (h : node.MadeOf Token.IsLexical) : node.numbersWithinLimit = true := by
  induction node with
  | number value =>
      obtain ⟨token, hlexical, hkind, rfl⟩ := h
      exact Lexicon.isWithinLimit_of_isRepresentable
        (isRepresentable_of_isLexical hlexical hkind)
  | reference identifier => rfl
  | error span => rfl
  | parenthesized inner ih => exact ih h
  | binary left operator right ihLeft ihRight =>
      rw [Node.numbersWithinLimit, ihLeft h.1, ihRight h.2.2]
      rfl
  | expressionStatement inner _ => exact h.elim
  | assignStatement identifier initializer _ => exact h.elim

theorem StatementMadeOf.numbersWithinLimit {node : Node}
    (h : node.StatementMadeOf Token.IsLexical) :
    node.numbersWithinLimit = true := by
  cases node with
  | expressionStatement body => exact h.1.numbersWithinLimit
  | assignStatement identifier initializer => exact h.2.numbersWithinLimit
  | _ => exact h.elim

end Node

end ExprLang

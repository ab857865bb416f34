import ExprLang.Proofs.Lexicon.Lexemes

/-!
# Numerals

The decimal numeral of a representable number is an integer lexeme, and its
value is the number.
-/

namespace ExprLang.Lexicon

theorem toList_toString_natCast (number : Nat) :
    (toString (number : Int)).toList = Nat.toDigits 10 number :=
  Nat.toList_repr

theorem toList_toString_negSucc (number : Nat) :
    (toString (Int.negSucc number)).toList =
      '-' :: Nat.toDigits 10 (number + 1) := by
  have hrepr : toString (Int.negSucc number) =
      "-" ++ (number + 1).repr := rfl
  rw [hrepr, String.toList_append, Nat.toList_repr]
  rfl

theorem toDigits_mem_digits (number : Nat) : Nat.toDigits 10 number ∈ digits :=
  mem_digits.mpr ⟨Nat.toDigits_ne_nil, fun _ hcharacter =>
    Nat.isDigit_of_mem_toDigits (by decide) (by decide) hcharacter⟩

theorem signedValue_of_digits {word : List Char} (h : word ∈ digits) :
    Number.signedValue word = Number.natValue word := by
  obtain ⟨first, rest, rfl, hfirst⟩ := exists_cons_of_mem_digits h
  have hsign : first ≠ '-' := ne_of_isDigit hfirst (by decide)
  rw [Number.signedValue]
  intro digits hcons
  exact hsign (List.cons.inj hcons).1

theorem signedValue_toString (number : Int) :
    Number.signedValue (toString number).toList = number := by
  cases number with
  | ofNat number =>
      rw [Int.ofNat_eq_natCast, toList_toString_natCast,
        signedValue_of_digits (toDigits_mem_digits number), Number.natValue,
        Nat.ofDigitChars_ten_toDigits]
  | negSucc number =>
      rw [toList_toString_negSucc, Number.signedValue, Number.natValue,
        Nat.ofDigitChars_ten_toDigits]
      rfl

theorem toString_mem_integers (number : Int) :
    (toString number).toList ∈ integers := by
  cases number with
  | ofNat number =>
      rw [Int.ofNat_eq_natCast, toList_toString_natCast]
      exact mem_integers.mpr (.inl (toDigits_mem_digits number))
  | negSucc number =>
      rw [toList_toString_negSucc]
      exact mem_integers.mpr (.inr ⟨_, toDigits_mem_digits (number + 1), rfl⟩)

theorem countP_toString_le {number : Int} (h : isRepresentable number = true) :
    (toString number).toList.countP Char.isDigit ≤ 10 := by
  simp only [isRepresentable, Bool.and_eq_true, decide_eq_true_eq] at h
  have hdigits : ∀ magnitude : Nat, magnitude < 10 ^ 10 →
      (Nat.toDigits 10 magnitude).countP Char.isDigit ≤ 10 := by
    intro magnitude hmagnitude
    have hlength := (Nat.length_toDigits_le_iff (by decide : 1 < 10)
      (by decide : 0 < 10)).mpr hmagnitude
    exact List.countP_le_length.trans hlength
  cases number with
  | ofNat number =>
      rw [Int.ofNat_eq_natCast] at h ⊢
      rw [toList_toString_natCast]
      exact hdigits number (by omega)
  | negSucc number =>
      rw [toList_toString_negSucc, List.countP_cons, if_neg (by decide)]
      exact hdigits (number + 1) (by omega)

theorem isLexeme_toString {number : Int} (h : isRepresentable number = true) :
    IsLexeme .integerLiteral (toString number).toList := by
  refine ⟨toString_mem_integers number, ?_, ?_⟩
  · intro fixed hfixed hspelled
    exact absurd hspelled
      (integers_not_fixed (toString_mem_integers number) hfixed)
  · have hcount := countP_toString_le h
    have hlimit : (10 : Nat) ≤ Number.digitLimit := by decide
    simp only [isAdmissible, signedValue_toString, h, Bool.and_true,
      Bool.or_eq_true, decide_eq_true_eq]
    exact .inr (hcount.trans hlimit)

end ExprLang.Lexicon

import ExprLang.Proofs.Evaluation.Course
import Mathlib.Data.Rat.Floor

/-!
# Truncated division

Quotient and remainder are pinned down in two ways.  They are the only numbers
that make up the dividend with a remainder smaller than the divisor and of the
sign of the dividend.  And the quotient is the only number whose magnitude is
the quotient of the magnitudes rounded down and whose sign is that of the
product.  Signs therefore pass through: the remainder follows the dividend, and
the quotient follows both.
-/

namespace ExprLang

structure TruncatedDivision (dividend divisor quotient remainder : Int) :
    Prop where
  composed : dividend = divisor * quotient + remainder
  smaller : |remainder| < |divisor|
  sign : remainder = 0 ∨ remainder.sign = dividend.sign

structure RoundsTowardZero (dividend divisor quotient : Int) : Prop where
  magnitude : |quotient| = ⌊(|dividend| : ℚ) / (|divisor| : ℚ)⌋
  sign : quotient = 0 ∨ quotient.sign = (dividend * divisor).sign

variable {dividend divisor quotient remainder : Int}

/-! ## The remainder -/

namespace TruncatedDivision

theorem divisor_ne_zero
    (h : TruncatedDivision dividend divisor quotient remainder) :
    divisor ≠ 0 := by
  have hpos : 0 < |divisor| := lt_of_le_of_lt (abs_nonneg remainder) h.smaller
  exact abs_pos.mp hpos

theorem remainder_nonneg
    (h : TruncatedDivision dividend divisor quotient remainder)
    (hdividend : 0 ≤ dividend) : 0 ≤ remainder := by
  rcases h.sign with hzero | hsign
  · exact hzero.ge
  · rw [← Int.sign_nonneg_iff, hsign, Int.sign_nonneg_iff]
    exact hdividend

theorem remainder_nonpos
    (h : TruncatedDivision dividend divisor quotient remainder)
    (hdividend : dividend ≤ 0) : remainder ≤ 0 := by
  rcases h.sign with hzero | hsign
  · exact hzero.le
  · rw [← Int.sign_nonpos_iff, hsign, Int.sign_nonpos_iff]
    exact hdividend

/-- The sign of the dividend says on which side of zero the remainder lies, and
of the numbers on one side only one is left over. -/
theorem eq_truncated
    (h : TruncatedDivision dividend divisor quotient remainder) :
    quotient = truncatedQuotient dividend divisor ∧
      remainder = truncatedRemainder dividend divisor := by
  have hcomposed : remainder + divisor * quotient = dividend := by
    rw [h.composed, add_comm]
  obtain ⟨hbelow, habove⟩ := abs_lt.mp h.smaller
  rw [Int.abs_eq_natAbs divisor] at hbelow habove
  have hunique : dividend.tdiv divisor = quotient ∧
      dividend.tmod divisor = remainder := by
    rcases le_total 0 dividend with hdividend | hdividend
    · exact (Int.tdiv_tmod_unique hdividend h.divisor_ne_zero).mpr
        ⟨hcomposed, h.remainder_nonneg hdividend, habove⟩
    · exact (Int.tdiv_tmod_unique' hdividend h.divisor_ne_zero).mpr
        ⟨hcomposed, hbelow, h.remainder_nonpos hdividend⟩
  rw [truncatedQuotient_eq_tdiv, truncatedRemainder_eq_tmod]
  exact ⟨hunique.1.symm, hunique.2.symm⟩

end TruncatedDivision

theorem truncatedDivision_of_ne_zero (h : divisor ≠ 0) :
    TruncatedDivision dividend divisor (truncatedQuotient dividend divisor)
      (truncatedRemainder dividend divisor) := by
  rw [truncatedQuotient_eq_tdiv, truncatedRemainder_eq_tmod]
  constructor
  · exact (Int.mul_tdiv_add_tmod dividend divisor).symm
  · rw [Int.abs_eq_natAbs, Int.abs_eq_natAbs, Int.natAbs_tmod, Nat.cast_lt]
    exact Nat.mod_lt _ (Int.natAbs_pos.mpr h)
  · rw [← Int.sign_eq_zero_iff_zero, Int.sign_tmod]
    split
    · exact .inl rfl
    · exact .inr rfl

/-! ## The quotient -/

theorem floor_magnitudes (dividend divisor : Int) :
    ⌊(|dividend| : ℚ) / (|divisor| : ℚ)⌋ =
      (dividend.natAbs / divisor.natAbs : Nat) := by
  rw [← Int.cast_abs, ← Int.cast_abs, Int.abs_eq_natAbs, Int.abs_eq_natAbs,
    Int.cast_natCast divisor.natAbs, Rat.floor_intCast_div_natCast,
    Int.natCast_ediv]

theorem roundsTowardZero_quotient (dividend divisor : Int) :
    RoundsTowardZero dividend divisor (truncatedQuotient dividend divisor) := by
  rw [truncatedQuotient_eq_tdiv]
  constructor
  · rw [floor_magnitudes, Int.abs_eq_natAbs, Int.natAbs_tdiv]
    rfl
  · rw [← Int.sign_eq_zero_iff_zero, Int.sign_tdiv, Int.sign_mul]
    split
    · exact .inl rfl
    · exact .inr rfl

theorem RoundsTowardZero.unique {other : Int}
    (h : RoundsTowardZero dividend divisor quotient)
    (hother : RoundsTowardZero dividend divisor other) : quotient = other := by
  have hmagnitude : |quotient| = |other| := by
    rw [h.magnitude, hother.magnitude]
  rcases h.sign with hzero | hsign
  · rw [hzero, abs_zero] at hmagnitude
    rw [hzero, abs_eq_zero.mp hmagnitude.symm]
  · rcases hother.sign with hotherZero | hotherSign
    · rw [hotherZero, abs_zero] at hmagnitude
      rw [hotherZero, abs_eq_zero.mp hmagnitude]
    · rw [← Int.sign_mul_abs quotient, ← Int.sign_mul_abs other, hsign,
        hotherSign, hmagnitude]

/-! ## Signs -/

section

variable (dividend divisor : Int)

theorem truncatedQuotient_neg_left :
    truncatedQuotient (-dividend) divisor =
      -truncatedQuotient dividend divisor := by
  rw [truncatedQuotient_eq_tdiv, truncatedQuotient_eq_tdiv, Int.neg_tdiv]

theorem truncatedQuotient_neg_right :
    truncatedQuotient dividend (-divisor) =
      -truncatedQuotient dividend divisor := by
  rw [truncatedQuotient_eq_tdiv, truncatedQuotient_eq_tdiv, Int.tdiv_neg]

theorem truncatedRemainder_neg_left :
    truncatedRemainder (-dividend) divisor =
      -truncatedRemainder dividend divisor := by
  rw [truncatedRemainder_eq_tmod, truncatedRemainder_eq_tmod, Int.neg_tmod]

theorem truncatedRemainder_neg_right :
    truncatedRemainder dividend (-divisor) =
      truncatedRemainder dividend divisor := by
  rw [truncatedRemainder_eq_tmod, truncatedRemainder_eq_tmod, Int.tmod_neg]

end

/-- Division by any number but zero has one quotient and one remainder, whether
they are found by the remainder or by rounding the quotient, and the signs of
dividend and divisor pass on to them. -/
theorem truncated_division_unique (dividend divisor : Int) (h : divisor ≠ 0) :
    (∀ quotient remainder,
      TruncatedDivision dividend divisor quotient remainder ↔
        quotient = truncatedQuotient dividend divisor ∧
          remainder = truncatedRemainder dividend divisor) ∧
    (∀ quotient, RoundsTowardZero dividend divisor quotient ↔
      quotient = truncatedQuotient dividend divisor) ∧
    (truncatedQuotient (-dividend) divisor =
        -truncatedQuotient dividend divisor ∧
      truncatedQuotient dividend (-divisor) =
        -truncatedQuotient dividend divisor) ∧
    truncatedRemainder (-dividend) divisor =
      -truncatedRemainder dividend divisor ∧
    truncatedRemainder dividend (-divisor) =
      truncatedRemainder dividend divisor := by
  refine ⟨?_, ?_, ⟨truncatedQuotient_neg_left dividend divisor,
    truncatedQuotient_neg_right dividend divisor⟩,
    truncatedRemainder_neg_left dividend divisor,
    truncatedRemainder_neg_right dividend divisor⟩
  · intro quotient remainder
    constructor
    · exact TruncatedDivision.eq_truncated
    · rintro ⟨rfl, rfl⟩
      exact truncatedDivision_of_ne_zero h
  · intro quotient
    constructor
    · intro hrounds
      exact hrounds.unique (roundsTowardZero_quotient dividend divisor)
    · rintro rfl
      exact roundsTowardZero_quotient dividend divisor

theorem negative_seven_halved :
    (2 : Int) ≠ 0 ∧ TruncatedDivision (-7) 2 (-3) (-1) ∧
      RoundsTowardZero (-7) 2 (-3) ∧
      truncatedQuotient 7 2 = 3 ∧ truncatedRemainder 7 2 = 1 := by
  have htwo : (2 : Int) ≠ 0 := by decide
  obtain ⟨hdivision, hrounds, ⟨hquotient, -⟩, hremainder, -⟩ :=
    truncated_division_unique (-7) 2 htwo
  exact ⟨htwo, (hdivision (-3) (-1)).mpr ⟨rfl, rfl⟩, (hrounds (-3)).mpr rfl,
    hquotient, hremainder⟩

end ExprLang

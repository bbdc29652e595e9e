import PocketCalculator.Proofs.FloatWords

/-!
Rounding of floats. A significand with its round bit and its sticky bit stands for a quotient, and
dropping binary places multiplies the divisor. So what arithmetic packs after rounding is the
magnitude nearest to the quotient it started from.
-/

namespace PocketCalculator.Proofs.FloatRounding

open Float.Model (Format UnpackedFloat totalExponent)
open Float.Model.UnpackedFloat
open PocketCalculator.Binary64
open PocketCalculator.Proofs.FloatWords
open PocketCalculator.Proofs.NearestMagnitude

/-- The whole part of a quotient, and where its fraction lies from one half. -/
def extended (num den : Nat) : ExtendedMantissa where
  mantissa := num / den
  roundBit := den ≤ 2 * (num % den)
  stickyBit := num % den ≠ 0 ∧ 2 * (num % den) ≠ den

theorem ofMantissaAndAccuracy_eq {num den : Nat} (hden : 0 < den) :
    ExtendedMantissa.ofMantissaAndAccuracy (num / den) (accuracyOfFraction (num % den) den) =
      extended num den := by
  unfold accuracyOfFraction extended
  generalize num % den = rest
  by_cases hzero : rest = 0
  · subst hzero
    simp [ExtendedMantissa.ofMantissaAndAccuracy, Nat.ne_of_gt hden]
  rw [if_neg hzero]
  rcases Nat.lt_trichotomy (2 * rest) den with hlt | heq | hgt
  · simp [ExtendedMantissa.ofMantissaAndAccuracy, Nat.compare_eq_lt.mpr hlt, hlt, hzero, hlt.ne]
  · subst heq
    simp [ExtendedMantissa.ofMantissaAndAccuracy]
  · simp [ExtendedMantissa.ofMantissaAndAccuracy, Nat.compare_eq_gt.mpr hgt, hgt.le, hgt.ne', hzero]

theorem shiftRightOne_extended (num : Nat) {den : Nat} (hden : 0 < den) :
    (extended num den).shiftRightOne = extended num (den * 2) := by
  have hrest := Nat.mod_lt num hden
  have hmod : num % (den * 2) = num % den + den * (num / den % 2) := Nat.mod_mul
  simp only [ExtendedMantissa.shiftRightOne, extended, ExtendedMantissa.mk.injEq, hmod]
  refine ⟨Nat.div_div_eq_div_mul .., ?_, ?_⟩ <;> rw [Bool.eq_iff_iff] <;>
    rcases Nat.mod_two_eq_zero_or_one (num / den) with hparity | hparity <;>
    simp [hparity] <;> omega

theorem shiftRight_extended (num : Nat) {den : Nat} (hden : 0 < den) (places : Nat) :
    extended num den >>> places = extended num (den * 2 ^ places) := by
  change places.repeat ExtendedMantissa.shiftRightOne (extended num den) = _
  induction places with
  | zero => simp [Nat.repeat]
  | succ places ih =>
      rw [Nat.repeat, ih, shiftRightOne_extended num (Nat.mul_pos hden (Nat.two_pow_pos places)),
        Nat.pow_succ, Nat.mul_assoc]

theorem roundedMantissa_extended (num : Nat) {den : Nat} (hden : 0 < den) :
    (extended num den).roundedMantissa = quotientHalfEven num den := by
  unfold quotientHalfEven extended ExtendedMantissa.roundedMantissa
  dsimp only
  generalize num % den = rest
  rcases Nat.lt_trichotomy (2 * rest) den with hlt | heq | hgt
  · have hround : ¬ den ≤ 2 * rest := by omega
    rw [if_pos hlt]
    by_cases hzero : rest = 0 <;>
      simp [ExtendedMantissa.accuracy, Accuracy.roundToNearestEven, hround, hzero, hlt.ne,
        Nat.ne_of_gt hden]
  · subst heq
    simp [ExtendedMantissa.accuracy, Accuracy.roundToNearestEven]
  · have hzero : rest ≠ 0 := by omega
    rw [if_neg (by omega), if_pos hgt]
    simp [ExtendedMantissa.accuracy, Accuracy.roundToNearestEven, hgt.le, hzero, hgt.ne']

theorem shiftToTargetExponent_eq {num den d places : Nat} {exponent : Int} (hden : 0 < den)
    (htarget : max (((num / den).log2 : Int) + 1 + exponent - 53) (-1074) = d - 1074)
    (hplaces : exponent + places = d - 1074) :
    shiftToTargetExponent Format.binary64 (num / den) exponent
        (accuracyOfFraction (num % den) den) =
      (extended num (den * 2 ^ places), (d : Int) - 1074) := by
  have hformat : Format.binary64.targetExponent (totalExponent (num / den) exponent) =
      (d : Int) - 1074 := htarget
  have hshift : ((d : Int) - 1074 - exponent).toNat = places := by omega
  rw [shiftToTargetExponent, hformat, shiftToExponent, hshift, hplaces,
    ofMantissaAndAccuracy_eq hden, shiftRight_extended num hden]

/-- A significand that has been rounded at its exponent still fits, but for a carry, which one more
place takes in. -/
theorem exists_shiftToTargetExponent {m d : Nat} (hm : m ≤ 2 ^ 53) (hd : d = 0 ∨ 2 ^ 52 ≤ m) :
    ∃ m' d', Fits m' d' ∧ d' * 2 ^ 52 + m' = d * 2 ^ 52 + m ∧
      (shiftToTargetExponent Format.binary64 m (d - 1074) .exact).1.mantissa = m' ∧
      (shiftToTargetExponent Format.binary64 m (d - 1074) .exact).2 = (d' : Int) - 1074 := by
  have hone (d' places : Nat)
      (htarget : max ((m.log2 : Int) + 1 + (d - 1074) - 53) (-1074) = d' - 1074)
      (hplaces : (d : Int) - 1074 + places = d' - 1074) :
      shiftToTargetExponent Format.binary64 m (d - 1074) .exact =
        (extended m (1 * 2 ^ places), (d' : Int) - 1074) := by
    have hshift : shiftToTargetExponent Format.binary64 (m / 1) (d - 1074)
        (accuracyOfFraction (m % 1) 1) = (extended m (1 * 2 ^ places), (d' : Int) - 1074) :=
      shiftToTargetExponent_eq Nat.one_pos (by rwa [Nat.div_one]) hplaces
    rwa [Nat.div_one, Nat.mod_one] at hshift
  rcases hm.lt_or_eq with hlt | rfl
  · refine ⟨m, d, ⟨hlt, hd⟩, rfl, ?_⟩
    have hlog : m.log2 ≤ 52 := by
      by_cases hzero : m = 0
      · simp [hzero]
      · exact Nat.le_of_lt_succ ((Nat.log2_lt hzero).mpr hlt)
    have hlow : d = 0 ∨ m.log2 = 52 := by
      refine hd.imp_right fun hle => ?_
      exact (Nat.log2_eq_iff (by omega)).mpr ⟨hle, hlt⟩
    rw [hone d 0 (by omega) (by omega)]
    simp [extended]
  · refine ⟨2 ^ 52, d + 1, ⟨by decide, Or.inr le_rfl⟩, by omega, ?_⟩
    have hlog : (2 ^ 53 : Nat).log2 = 53 := Nat.log2_two_pow
    rw [hone (d + 1) 1 (by omega) (by omega)]
    exact ⟨rfl, rfl⟩

/-- The exponent at which arithmetic rounds the significand `num / den`, and the places it drops. -/
theorem exists_places {num den : Nat} {exponent : Int}
    (hwide : exponent ≤ -1074 ∨ 2 ^ 52 ≤ num / den) :
    ∃ d places : Nat,
      max (((num / den).log2 : Int) + 1 + exponent - 53) (-1074) = d - 1074 ∧
      exponent + places = d - 1074 ∧
      (d = 0 ∨ places + 52 = (num / den).log2) ∧ (num / den).log2 ≤ places + 52 := by
  have hlog : exponent ≤ -1074 ∨ 52 ≤ (num / den).log2 :=
    hwide.imp_right fun h => (Nat.le_log2 (by omega)).mpr h
  refine ⟨(((num / den).log2 : Int) + 1 + exponent - 53 + 1074).toNat,
    (max (((num / den).log2 : Int) + 1 + exponent - 53) (-1074) - exponent).toNat, ?_⟩
  omega

theorem pack_roundWithAccuracy (negative : Bool) {num den a b : Nat} {exponent : Int}
    (hden : 0 < den) (hexponent : exponent + b + 1074 = a)
    (hwide : exponent ≤ -1074 ∨ 2 ^ 52 ≤ num / den) :
    pack Format.binary64 (roundWithAccuracy Format.binary64 (signOf negative) (num / den) exponent
        (accuracyOfFraction (num % den) den)) =
      word negative (nearest (num * 2 ^ a) (den * 2 ^ b)) := by
  obtain ⟨d, places, htarget, hplaces, hnormal, hlog⟩ := exists_places hwide
  have hstep : 0 < den * 2 ^ places := Nat.mul_pos hden (Nat.two_pow_pos places)
  have hscale : den * 2 ^ b * 2 ^ d = den * 2 ^ places * 2 ^ a := by
    rw [Nat.mul_assoc, Nat.mul_assoc, ← Nat.pow_add, ← Nat.pow_add]
    congr 2
    omega
  have hlow : d = 0 ∨ 2 ^ 52 ≤ num / (den * 2 ^ places) := by
    refine hnormal.imp_right fun heq => ?_
    have hself : 2 ^ (num / den).log2 ≤ num / den := Nat.log2_self_le (by rintro h; simp [h] at heq)
    rw [← Nat.div_div_eq_div_mul]
    refine (Nat.le_div_iff_mul_le (Nat.two_pow_pos places)).mpr ?_
    rwa [← Nat.pow_add, Nat.add_comm, heq]
  have hhigh : num / (den * 2 ^ places) < 2 ^ 53 := by
    rw [← Nat.div_div_eq_div_mul]
    refine (Nat.div_lt_iff_lt_mul (Nat.two_pow_pos places)).mpr ?_
    rw [← Nat.pow_add]
    exact Nat.lt_log2_self.trans_le (Nat.pow_le_pow_right Nat.two_pos (by omega))
  have hround : quotientHalfEven (num * 2 ^ a) (den * 2 ^ b * 2 ^ d) =
      quotientHalfEven num (den * 2 ^ places) := by
    rw [hscale, quotientHalfEven_mul_right (Nat.two_pow_pos a)]
  have hnearest : IsNearest (d * 2 ^ 52 + quotientHalfEven num (den * 2 ^ places))
      (num * 2 ^ a) (den * 2 ^ b) := by
    rw [← hround]
    refine isNearest_quotientHalfEven (Nat.mul_pos hden (Nat.two_pow_pos b)) ?_ ?_ <;> rw [hscale]
    · refine hlow.imp_right fun h => ?_
      rw [← Nat.mul_assoc]
      exact Nat.mul_le_mul_right _ ((Nat.le_div_iff_mul_le hstep).mp h)
    · rw [← Nat.mul_assoc]
      exact Nat.mul_lt_mul_of_pos_right ((Nat.div_lt_iff_lt_mul hstep).mp hhigh) (Nat.two_pow_pos a)
  have hbounds : num / (den * 2 ^ places) ≤ quotientHalfEven num (den * 2 ^ places) ∧
      quotientHalfEven num (den * 2 ^ places) ≤ num / (den * 2 ^ places) + 1 := by
    rcases quotientHalfEven_cases num (den * 2 ^ places) with h | h <;> omega
  obtain ⟨m', d', hfits, hsum, hmantissa, hexponent'⟩ :=
    exists_shiftToTargetExponent (m := quotientHalfEven num (den * 2 ^ places)) (d := d) (by omega)
      (hlow.imp_right hbounds.1.trans')
  rw [nearest_eq (Nat.mul_pos hden (Nat.two_pow_pos b)) hnearest, ← hsum, ← pack_canonical _ hfits]
  congr 1
  rw [roundWithAccuracy, shiftToTargetExponent_eq hden htarget hplaces]
  dsimp only
  rw [roundedMantissa_extended num hstep]
  generalize shiftToTargetExponent Format.binary64 (quotientHalfEven num (den * 2 ^ places))
    (d - 1074) .exact = shifted at hmantissa hexponent' ⊢
  obtain ⟨mantissa, exponent⟩ := shifted
  subst hmantissa hexponent'
  rfl

end PocketCalculator.Proofs.FloatRounding

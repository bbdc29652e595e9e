import PocketCalculator.Proofs.PowersOfTen
import PocketCalculator.Proofs.ResultRounding

namespace PocketCalculator.Proofs.DecimalRounding

open PocketCalculator.Binary64
open PocketCalculator.Calculation
open PocketCalculator.Proofs.ExactValues
open PocketCalculator.Proofs.FloatArithmetic
open PocketCalculator.Proofs.FloatSpecials
open PocketCalculator.Proofs.NearestMagnitude
open PocketCalculator.Proofs.PowersOfTen
open PocketCalculator.Proofs.ResultRounding

section

variable {decimals : UInt32}

theorem toInt_toInt32 (decimals : UInt32) :
    decimals.toInt32.toInt =
      if 2 * decimals.toNat < 2 ^ 32 then (decimals.toNat : Int)
      else decimals.toNat - (2 ^ 32 : Nat) :=
  BitVec.toInt_eq_toNat_cond decimals.toBitVec

theorem decimalFactor_of_lt (h : decimals.toNat < 2 ^ 31) :
    decimalFactor decimals = powerBySquaring 10 1 decimals.toNat := by
  rw [decimalFactor, toInt_toInt32, if_pos (by omega), powerOfTen, Int.natAbs_natCast]
  exact if_neg (by omega)

theorem decimalFactor_of_le (h : 2 ^ 31 ≤ decimals.toNat) :
    decimalFactor decimals = 1 / powerBySquaring 10 1 (2 ^ 32 - decimals.toNat) := by
  have hlt : decimals.toNat < 2 ^ 32 := decimals.toNat_lt
  have habs : ((decimals.toNat : Int) - (2 ^ 32 : Nat)).natAbs = 2 ^ 32 - decimals.toNat := by omega
  rw [decimalFactor, toInt_toInt32, if_neg (by omega), powerOfTen, habs]
  exact if_pos (by omega)

end

section

variable {y : Float} (hy : AtLeastOne y)
include hy

theorem one_div_of_infinite (h : magnitude y = infinite) : 1 / y = 0 := by
  rw [← ofMagnitude_magnitude hy.le_infinite, hy.positive, h]
  decide +kernel

theorem scales_one_div (h : magnitude y < infinite) : Scales (1 / y) := by
  have hone : magnitude 1 < infinite := by decide +kernel
  have hpos : 0 < units y := pos_one.trans_le hy.one_le
  have hle : nearest (units 1 * one) (units y) ≤ magnitude 1 :=
    nearest_le_of_le hpos (Nat.mul_le_mul_left _ hy.one_le)
  have hlarge : 1 ≤ nearest (units 1 * one) (units y) := by
    refine le_nearest_of_le hpos (by decide) ?_
    calc unitsOf 1 * units y ≤ unitsOf 1 * unitsOf infinite :=
          Nat.mul_le_mul_left _ (unitsOf_le_iff.mpr h.le)
      _ ≤ units 1 * one := by decide +kernel
  have hdiv := div_eq hone h hpos.ne'
  have hfinite : magnitude (1 / y) < infinite := by
    rw [hdiv, magnitude_ofMagnitude _ (nearest_le_infinite ..)]
    exact hle.trans_lt hone
  refine ⟨isFinite_iff.mpr hfinite, ?_⟩
  rw [Bool.eq_false_iff, Ne, beq_zero_iff hfinite, hdiv,
    magnitude_ofMagnitude _ (nearest_le_infinite ..)]
  omega

end

section

variable {value : Float} {decimals : UInt32}

theorem exists_roundHalfAway {x : Float} (h : IsRoundable x) :
    ∃ w < infinite, roundHalfAway x = ofMagnitude (isNegative x) w := by
  have hx := isFinite_iff.mp h.1
  have hround := roundHalfAway_ofMagnitude (isNegative x) hx
  rw [ofMagnitude_magnitude hx.le] at hround
  exact ⟨_, (nearest_whole h.2).1, hround⟩

theorem roundDecimals_eq_self_of_infinite (h : magnitude (decimalFactor decimals) = infinite) :
    roundDecimals value decimals = value := by
  refine roundDecimals_of_not_isRoundable fun hround => ?_
  rw [IsRoundable, isFinite_mul_of_infinite h] at hround
  exact Bool.false_ne_true hround.1

theorem isFinite_roundDecimals (hvalue : value.isFinite)
    (hfactor : AtLeastOne (decimalFactor decimals)) : (roundDecimals value decimals).isFinite := by
  by_cases hround : IsRoundable (value * decimalFactor decimals)
  · rcases hfactor.le_infinite.lt_or_eq with hlt | heq
    · obtain ⟨w, hw, heq⟩ := exists_roundHalfAway hround
      have hpos : 0 < units (decimalFactor decimals) := pos_one.trans_le hfactor.one_le
      rw [roundDecimals_of_isRoundable hround, heq,
        div_eq (magnitude_ofMagnitude_lt _ hw) hlt hpos.ne', isFinite_iff,
        magnitude_ofMagnitude _ (nearest_le_infinite ..), units_ofMagnitude _ hw.le]
      exact (nearest_le_of_le hpos (Nat.mul_le_mul_left _ hfactor.one_le)).trans_lt hw
    · rwa [roundDecimals_eq_self_of_infinite heq]
  · rwa [roundDecimals_of_not_isRoundable hround]

theorem roundDecimals_eq_self_of_large {n : Nat} (hvalue : value.isFinite)
    (hfinite : magnitude (decimalFactor decimals) < infinite)
    (hfactor : units (decimalFactor decimals) = 10 ^ n * one)
    (hlarge : 2 ^ 53 ≤ |exact value| * 10 ^ n) : roundDecimals value decimals = value := by
  have hunits : 2 ^ 53 * one ≤ units value * 10 ^ n := by
    rw [abs_exact, div_mul_eq_mul_div, le_div_iff₀ cast_one_pos] at hlarge
    exact_mod_cast hlarge
  refine roundDecimals_of_not_isRoundable fun ⟨_, hsmall⟩ => hsmall.not_ge ?_
  rw [mul_eq (isFinite_iff.mp hvalue) hfinite, units_ofMagnitude _ (nearest_le_infinite ..),
    ← unitsOf_wholeMagnitude, unitsOf_le_iff]
  refine le_nearest_of_le pos_one wholeMagnitude_lt_infinite.le ?_
  rw [unitsOf_wholeMagnitude, hfactor, ← Nat.mul_assoc]
  exact Nat.mul_le_mul_right _ hunits

theorem isNaN_roundDecimals_of_scales (hvalue : value.isFinite)
    (hfactor : Scales (decimalFactor decimals)) : (roundDecimals value decimals).isNaN = false := by
  by_cases hround : IsRoundable (value * decimalFactor decimals)
  · obtain ⟨w, hw, heq⟩ := exists_roundHalfAway hround
    rw [roundDecimals_of_isRoundable hround, heq, isNaN_div hfactor]
    exact isNaN_ofMagnitude _ hw.le
  · rw [roundDecimals_of_not_isRoundable hround]
    exact isNaN_of_isFinite hvalue

theorem isNaN_roundDecimals_of_zero (hvalue : value.isFinite)
    (hfactor : decimalFactor decimals = 0) : (roundDecimals value decimals).isNaN = true := by
  have hzero : magnitude 0 < infinite := by decide +kernel
  have hproduct : value * 0 = ofMagnitude (isNegative value) 0 := by
    have hsign : isNegative 0 = false := by decide +kernel
    have hunits : units 0 = 0 := by decide +kernel
    rw [mul_eq (isFinite_iff.mp hvalue) hzero, hsign, hunits, Nat.mul_zero, nearest_zero pos_one,
      Bool.xor_false]
  have hround : IsRoundable (value * decimalFactor decimals) := by
    rw [hfactor, hproduct]
    refine ⟨isFinite_iff.mpr (magnitude_ofMagnitude_lt _ (by decide)), ?_⟩
    rw [units_ofMagnitude _ (by decide), unitsOf_zero]
    exact Nat.mul_pos (Nat.two_pow_pos _) pos_one
  rw [roundDecimals_of_isRoundable hround, hfactor, hproduct]
  cases isNegative value <;> decide +kernel

end

/-- Rounding keeps finite values finite, and keeps those that are too large for the decimals, up to
the numbers of decimals that a signed word does not hold. Of these, a finite value comes to NaN from
the ones whose power of ten is infinite. -/
theorem roundDecimals_finite {value : Float} (hvalue : value.isFinite) (decimals : UInt32) :
    (decimals.toNat < 2 ^ 31 →
      (roundDecimals value decimals).isFinite ∧
      (decimals.toNat ≤ 22 ∧ 2 ^ 53 ≤ |exact value| * 10 ^ decimals.toNat →
        roundDecimals value decimals = value) ∧
      (308 < decimals.toNat → roundDecimals value decimals = value)) ∧
    ((roundDecimals value decimals).isNaN ↔
      2 ^ 31 ≤ decimals.toNat ∧ decimals.toNat ≤ 2 ^ 32 - 309) := by
  have hpower (n : Nat) := (isPower_powerBySquaring n).atLeastOne
  rcases Nat.lt_or_ge decimals.toNat (2 ^ 31) with hsigned | hwrapped
  · have hfactor := decimalFactor_of_lt hsigned
    have hfinite := isFinite_roundDecimals hvalue (hfactor ▸ hpower decimals.toNat)
    refine ⟨fun _ => ⟨hfinite, ?_, fun hlarge => ?_⟩, ?_⟩
    · rintro ⟨hdecimals, hlarge⟩
      refine roundDecimals_eq_self_of_large hvalue ?_ ?_ hlarge
      · rw [hfactor, magnitude_powerBySquaring_lt_iff]
        omega
      · rw [hfactor]
        refine units_eq_of_exact (hpower _) ?_
        rw [(isPower_powerBySquaring _).exact_eq hdecimals]
        norm_cast
    · refine roundDecimals_eq_self_of_infinite ?_
      rw [hfactor, magnitude_powerBySquaring_eq hlarge]
    · rw [isNaN_of_isFinite hfinite]
      exact iff_of_false Bool.false_ne_true (by omega)
  · refine ⟨fun hsigned => absurd hwrapped hsigned.not_ge, ?_⟩
    have hfactor := decimalFactor_of_le hwrapped
    have hlt : decimals.toNat < 2 ^ 32 := decimals.toNat_lt
    by_cases hsmall : 2 ^ 32 - decimals.toNat ≤ 308
    · have hscales := scales_one_div (hpower _) (magnitude_powerBySquaring_lt_iff.mpr hsmall)
      rw [isNaN_roundDecimals_of_scales hvalue (hfactor ▸ hscales)]
      exact iff_of_false Bool.false_ne_true (by omega)
    · have hzero := one_div_of_infinite (hpower _)
        (magnitude_powerBySquaring_eq (not_le.mp hsmall))
      rw [isNaN_roundDecimals_of_zero hvalue (hfactor.trans hzero)]
      exact iff_of_true rfl (by omega)

theorem roundDecimals_finite_large :
    (roundDecimals 1e300 10).isFinite ∧ roundDecimals 1e300 10 = 1e300 := by
  have hlarge : 2 ^ 53 ≤ |exact 1e300| * 10 ^ (10 : UInt32).toNat := by decide +kernel
  obtain ⟨hfinite, hkept, -⟩ := (@roundDecimals_finite 1e300 (by decide +kernel) 10).1 (by decide)
  exact ⟨hfinite, hkept ⟨by decide, hlarge⟩⟩

/-- The number of decimals that is taken for minus four hundred. -/
theorem roundDecimals_loses :
    (1 : Float).isFinite ∧ 308 < (4294966896 : UInt32).toNat ∧
      (roundDecimals 1 4294966896).isNaN ∧ roundDecimals 1 4294966896 ≠ 1 := by
  refine ⟨?_, by decide, ?_, ?_⟩ <;> decide +kernel

end PocketCalculator.Proofs.DecimalRounding

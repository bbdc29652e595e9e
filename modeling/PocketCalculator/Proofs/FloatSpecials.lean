import PocketCalculator.Proofs.FloatArithmetic

namespace PocketCalculator.Proofs.FloatSpecials

open Float.Model (Format UnpackedFloat)
open Float.Model.UnpackedFloat
open PocketCalculator.Binary64
open PocketCalculator.Proofs.FloatArithmetic
open PocketCalculator.Proofs.NearestMagnitude

theorem isNaN_unpack_packComponents {sign : Sign} {exponent : BitVec 11} {fraction : BitVec 52}
    (h : exponent ≠ -1#11) :
    (unpack Format.binary64 (packComponents Format.binary64 sign exponent fraction)).isNaN =
      false := by
  rw [FloatWords.unpack_packComponents, if_neg h]
  by_cases hzero : exponent = 0#11
  · rw [if_pos hzero]
    by_cases hfraction : fraction = 0#52
    · rw [dif_pos hfraction]
      rfl
    · rw [dif_neg hfraction]
      rfl
  · rw [if_neg hzero]
    rfl

theorem isNaN_unpack_pack (u : UnpackedFloat) :
    (unpack Format.binary64 (pack Format.binary64 u)).isNaN = u.isNaN := by
  cases u with
  | notANumber => rfl
  | infinity sign => cases sign <;> rfl
  | zero sign => cases sign <;> rfl
  | finite sign mantissa exponent hpos =>
      change (unpack Format.binary64 _).isNaN = false
      unfold pack
      dsimp only
      split
      · cases sign <;> rfl
      next hsmall =>
        split
        · refine isNaN_unpack_packComponents ?_
          change ¬ 2 ^ 11 ≤ _ + 1 at hsmall
          exact FloatWords.ofNat_ne (j := 2047) (by omega) (by decide) (by omega)
        · exact isNaN_unpack_packComponents (by decide)

theorem isNaN_ofModel_pack (u : UnpackedFloat) :
    (Float.ofModel (Float.Model.pack u)).isNaN = u.isNaN :=
  isNaN_unpack_pack u

theorem isNaN_roundWithAccuracy (sign : Sign) (mantissa : Nat) (exponent : Int)
    (accuracy : Accuracy) :
    (roundWithAccuracy Format.binary64 sign mantissa exponent accuracy).isNaN = false := by
  unfold roundWithAccuracy
  generalize shiftToTargetExponent Format.binary64 mantissa exponent accuracy = shifted
  dsimp only
  generalize shiftToTargetExponent Format.binary64 shifted.1.roundedMantissa shifted.2 .exact =
    rounded
  by_cases h : rounded.1.mantissa = 0
  · rw [dif_pos h]
    rfl
  · rw [dif_neg h]
    rfl

variable {x y : Float}

/-- A finite float that is not zero. -/
structure Scales (y : Float) : Prop where
  finite : y.isFinite
  nonzero : (y == 0) = false

theorem Scales.exists_unpack (h : Scales y) :
    ∃ sign mantissa exponent hpos,
      y.toModel.unpack = .finite sign mantissa exponent hpos := by
  obtain ⟨hfinite, hnonzero⟩ := h
  change y.toModel.unpack.isFinite at hfinite
  change (y.toModel.unpack.compare (.zero .positive) == some .eq) = false at hnonzero
  cases hunpack : y.toModel.unpack with
  | notANumber => rw [hunpack] at hfinite; cases hfinite
  | infinity sign => rw [hunpack] at hfinite; cases hfinite
  | zero sign => rw [hunpack] at hnonzero; cases hnonzero
  | finite sign mantissa exponent hpos => exact ⟨sign, mantissa, exponent, hpos, rfl⟩

theorem isNaN_div (hy : Scales y) : (x / y).isNaN = x.isNaN := by
  obtain ⟨sign, mantissa, exponent, hpos, hunpack⟩ := hy.exists_unpack
  refine (isNaN_ofModel_pack (div Format.binary64 x.toModel.unpack y.toModel.unpack)).trans ?_
  rw [hunpack]
  change _ = x.toModel.unpack.isNaN
  cases x.toModel.unpack with
  | finite sign' mantissa' exponent' hpos' => exact isNaN_roundWithAccuracy ..
  | _ => rfl

theorem isNaN_ofMagnitude (negative : Bool) {b : Nat} (hb : b ≤ infinite) :
    (ofMagnitude negative b).isNaN = false := by
  rw [Bool.eq_false_iff, Ne, FloatArithmetic.isNaN_iff, magnitude_ofMagnitude negative hb]
  exact Nat.not_lt.mpr hb

theorem isNaN_of_isFinite (h : x.isFinite) : x.isNaN = false := by
  rw [Bool.eq_false_iff, Ne, FloatArithmetic.isNaN_iff]
  exact (isFinite_iff.mp h).not_gt

theorem unpack_of_infinite (h : magnitude x = infinite) :
    x.toModel.unpack = .infinity (FloatWords.signOf (isNegative x)) := by
  rw [unpack_toModel, h, FloatWords.unpack_word_infinite]

theorem isFinite_unpack_pack {u : UnpackedFloat} (h : u.isFinite = false) :
    (unpack Format.binary64 (pack Format.binary64 u)).isFinite = false := by
  cases u with
  | notANumber => rfl
  | infinity sign => cases sign <;> rfl
  | zero sign => cases h
  | finite sign mantissa exponent hpos => cases h

theorem isFinite_mul_of_infinite (hy : magnitude y = infinite) : (x * y).isFinite = false := by
  refine isFinite_unpack_pack (u := mul Format.binary64 x.toModel.unpack y.toModel.unpack) ?_
  rw [unpack_of_infinite hy]
  cases x.toModel.unpack <;> rfl

end PocketCalculator.Proofs.FloatSpecials

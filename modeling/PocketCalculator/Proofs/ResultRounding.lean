import PocketCalculator.Calculation.Result
import PocketCalculator.Proofs.FloatArithmetic

namespace PocketCalculator.Proofs.ResultRounding

open PocketCalculator.Binary64
open PocketCalculator.Calculation
open PocketCalculator.Proofs.FloatArithmetic
open PocketCalculator.Proofs.NearestMagnitude

/-- The magnitude of the product with ten to the ten. -/
def scaled (b : Nat) : Nat := nearest (unitsOf b * 10 ^ 10) 1

/-- The whole number nearest to a magnitude, a half going up. -/
def whole (b : Nat) : Nat := (2 * unitsOf b + one) / (2 * one)

/-- The magnitude of a rounded result. -/
def rounded (b : Nat) : Nat :=
  if 2 ^ 53 * one ≤ unitsOf (scaled b) then b else nearest (whole (scaled b) * one) (10 ^ 10)

theorem exists_unitsOf_bound : ∃ c < infinite, unitsOf c = 2 ^ 54 * one :=
  ⟨0x4350000000000000, by decide, by decide +kernel⟩

theorem whole_le {c : Nat} (hc : unitsOf c < 2 ^ 53 * one) : whole c ≤ 2 ^ 53 := by
  have hone := pos_one
  refine Nat.le_of_lt_succ ((Nat.div_lt_iff_lt_mul (by omega)).mpr ?_)
  linarith

/-- A magnitude that is nearest to a decimal with ten places, one small enough to be exact when it
is scaled. -/
structure IsDecimal (b n : Nat) : Prop where
  le : n ≤ 2 ^ 53
  nearest : IsNearest b (n * one) (10 ^ 10)

theorem IsDecimal.scaled_le {b n : Nat} (h : IsDecimal b n) :
    unitsOf b * 10 ^ 10 ≤ 2 ^ 54 * one := by
  have hle : n * one ≤ 2 ^ 53 * one := Nat.mul_le_mul_right one h.le
  have hlow := h.nearest.low
  linarith [Nat.zero_le (unitsOf (b - 1)), Nat.zero_le (b % 2)]

theorem IsDecimal.lt_infinite {b n : Nat} (h : IsDecimal b n) : b < infinite := by
  obtain ⟨c, hc, hunits⟩ := exists_unitsOf_bound
  refine (unitsOf_le_iff.mp ?_).trans_lt hc
  rw [hunits]
  exact (Nat.le_mul_of_pos_right _ (Nat.pow_pos (by decide))).trans h.scaled_le

/-- A rounded magnitude is nearest to a decimal, unless it is too large to be rounded. -/
theorem rounded_cases (b : Nat) :
    (2 ^ 53 * one ≤ unitsOf (scaled b) ∧ rounded b = b) ∨
      (¬ 2 ^ 53 * one ≤ unitsOf (scaled b) ∧ IsDecimal (rounded b) (whole (scaled b))) := by
  by_cases hguard : 2 ^ 53 * one ≤ unitsOf (scaled b)
  · exact Or.inl ⟨hguard, if_pos hguard⟩
  right
  obtain ⟨c, hc, hnearest⟩ := exists_nearest_eq (whole (scaled b) * one)
    (Nat.pow_pos (by decide) : 0 < 10 ^ 10)
  have hdecimal : IsDecimal c (whole (scaled b)) := ⟨whole_le (Nat.lt_of_not_le hguard), hc⟩
  rw [Nat.min_eq_right hdecimal.lt_infinite.le] at hnearest
  exact ⟨hguard, by rwa [rounded, if_neg hguard, hnearest]⟩

theorem rounded_lt_infinite {b : Nat} (hb : b < infinite) : rounded b < infinite := by
  rcases rounded_cases b with ⟨-, heq⟩ | ⟨-, hdecimal⟩
  · rwa [heq]
  · exact hdecimal.lt_infinite

/-- The magnitude of ten to the ten. -/
def factorMagnitude : Nat := 0x4202A05F20000000

/-- The magnitude from which on every float is whole. -/
def wholeMagnitude : Nat := 0x4340000000000000

theorem decimalFactor_eq : decimalFactor resultDecimals = ofMagnitude false factorMagnitude := by
  decide +kernel

theorem wholeFrom_eq : wholeFrom = ofMagnitude false wholeMagnitude := by
  decide +kernel

theorem unitsOf_factorMagnitude : unitsOf factorMagnitude = 10 ^ 10 * one := by
  decide +kernel

theorem unitsOf_wholeMagnitude : unitsOf wholeMagnitude = 2 ^ 53 * one := by
  decide +kernel

theorem factorMagnitude_lt_infinite : factorMagnitude < infinite := by
  decide

theorem wholeMagnitude_lt_infinite : wholeMagnitude < infinite := by
  decide

theorem mul_decimalFactor {x : Float} (hx : magnitude x < infinite) :
    x * decimalFactor resultDecimals = ofMagnitude (isNegative x) (scaled (magnitude x)) := by
  have hfactor := factorMagnitude_lt_infinite
  rw [decimalFactor_eq, mul_eq hx (magnitude_ofMagnitude_lt _ hfactor),
    isNegative_ofMagnitude _ hfactor.le, units_ofMagnitude _ hfactor.le, unitsOf_factorMagnitude,
    Bool.xor_false, scaled]
  refine congrArg (ofMagnitude _) (nearest_congr pos_one Nat.one_pos ?_)
  rw [units, Nat.mul_one, Nat.mul_assoc]

theorem nearest_whole {c : Nat} (hc : unitsOf c < 2 ^ 53 * one) :
    nearest (whole c * one) 1 < infinite ∧ unitsOf (nearest (whole c * one) 1) = whole c * one := by
  obtain ⟨w, hw⟩ := exists_unitsOf_eq_mul_one (whole_le hc)
  have hfinite : w < infinite := by
    refine (unitsOf_le_iff.mp ?_).trans_lt wholeMagnitude_lt_infinite
    rw [hw, unitsOf_wholeMagnitude]
    exact Nat.mul_le_mul_right one (whole_le hc)
  have hnearest := nearest_unitsOf hfinite Nat.one_pos
  rw [hw, Nat.mul_one] at hnearest
  rw [hnearest]
  exact ⟨hfinite, hw⟩

theorem roundHalfAway_ofMagnitude {c : Nat} (negative : Bool) (hfinite : c < infinite) :
    roundHalfAway (ofMagnitude negative c) = ofMagnitude negative (nearest (whole c * one) 1) := by
  rw [roundHalfAway, if_pos (isFinite_iff.mpr (magnitude_ofMagnitude_lt _ hfinite)),
    isNegative_ofMagnitude _ hfinite.le, units_ofMagnitude _ hfinite.le]
  rfl

theorem roundHalfAway_div {c : Nat} (negative : Bool) (hfinite : c < infinite)
    (hc : unitsOf c < 2 ^ 53 * one) :
    roundHalfAway (ofMagnitude negative c) / decimalFactor resultDecimals =
      ofMagnitude negative (nearest (whole c * one) (10 ^ 10)) := by
  obtain ⟨hwhole, hunits⟩ := nearest_whole hc
  have hfactor := factorMagnitude_lt_infinite
  have hpos : 0 < 10 ^ 10 * one := Nat.mul_pos (Nat.pow_pos (by decide)) pos_one
  rw [roundHalfAway_ofMagnitude negative hfinite, decimalFactor_eq,
    div_eq (magnitude_ofMagnitude_lt _ hwhole) (magnitude_ofMagnitude_lt _ hfactor)
      (by rw [units_ofMagnitude _ hfactor.le, unitsOf_factorMagnitude]; exact hpos.ne'),
    isNegative_ofMagnitude _ hwhole.le, isNegative_ofMagnitude _ hfactor.le, Bool.xor_false,
    units_ofMagnitude _ hwhole.le, units_ofMagnitude _ hfactor.le, unitsOf_factorMagnitude, hunits]
  refine congrArg (ofMagnitude _) (nearest_congr hpos (Nat.pow_pos (by decide)) ?_)
  rw [Nat.mul_assoc, Nat.mul_comm one]

theorem wholeFrom_le_abs_iff {x : Float} (hx : magnitude x < infinite) :
    wholeFrom ≤ x.abs ↔ 2 ^ 53 * one ≤ units x := by
  have hguard := wholeMagnitude_lt_infinite
  rw [abs_eq hx, wholeFrom_eq,
    le_iff (magnitude_ofMagnitude_lt _ hguard) (magnitude_ofMagnitude_lt _ hx)
      (isNegative_ofMagnitude _ hguard.le) (isNegative_ofMagnitude _ hx.le),
    magnitude_ofMagnitude _ hguard.le, magnitude_ofMagnitude _ hx.le, ← unitsOf_wholeMagnitude,
    units, unitsOf_le_iff]

/-- The scaled value is finite, and small enough not to be whole already. -/
def IsRoundable (scaled : Float) : Prop := scaled.isFinite ∧ units scaled < 2 ^ 53 * one

section

variable {value : Float} {decimals : UInt32}

theorem roundDecimals_of_isRoundable (h : IsRoundable (value * decimalFactor decimals)) :
    roundDecimals value decimals =
      roundHalfAway (value * decimalFactor decimals) / decimalFactor decimals := by
  obtain ⟨hfinite, hsmall⟩ := h
  have hguard := mt (wholeFrom_le_abs_iff (isFinite_iff.mp hfinite)).mp hsmall.not_ge
  exact if_neg (by simpa [hfinite] using hguard)

theorem roundDecimals_of_not_isRoundable (h : ¬ IsRoundable (value * decimalFactor decimals)) :
    roundDecimals value decimals = value := by
  refine if_pos ?_
  by_cases hfinite : (value * decimalFactor decimals).isFinite
  · have hlarge := not_lt.mp fun hsmall => h ⟨hfinite, hsmall⟩
    simpa [hfinite] using (wholeFrom_le_abs_iff (isFinite_iff.mp hfinite)).mpr hlarge
  · simp [hfinite]

end

/-- Rounding a finite float rounds its magnitude. -/
theorem roundDecimals_eq {x : Float} (hx : magnitude x < infinite) :
    roundDecimals x resultDecimals = ofMagnitude (isNegative x) (rounded (magnitude x)) := by
  have hscaled : scaled (magnitude x) ≤ infinite := nearest_le_infinite ..
  have hunits : units (x * decimalFactor resultDecimals) = unitsOf (scaled (magnitude x)) := by
    rw [mul_decimalFactor hx, units_ofMagnitude _ hscaled]
  by_cases hguard : 2 ^ 53 * one ≤ unitsOf (scaled (magnitude x))
  · rw [rounded, if_pos hguard, ofMagnitude_magnitude hx.le]
    exact roundDecimals_of_not_isRoundable fun h => h.2.not_ge (hunits.symm ▸ hguard)
  · have hsmall := not_le.mp hguard
    have hfinite : scaled (magnitude x) < infinite := by
      rw [← unitsOf_wholeMagnitude, unitsOf_lt_iff] at hsmall
      exact hsmall.trans wholeMagnitude_lt_infinite
    have hround : IsRoundable (x * decimalFactor resultDecimals) := by
      refine ⟨?_, hunits.symm ▸ hsmall⟩
      rw [mul_decimalFactor hx]
      exact isFinite_iff.mpr (magnitude_ofMagnitude_lt _ hfinite)
    rw [rounded, if_neg hguard, roundDecimals_of_isRoundable hround, mul_decimalFactor hx]
    exact roundHalfAway_div _ hfinite hsmall

end PocketCalculator.Proofs.ResultRounding

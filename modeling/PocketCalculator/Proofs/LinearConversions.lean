import PocketCalculator.Proofs.ConverterRuns
import PocketCalculator.Proofs.ExactValues

/-!
Conversions there and back. Each product and each quotient with a rate is off by half a unit in its
last place at most, so the four of a conversion there and back are off by a few. Rates of data are
powers of two, and with those nothing is rounded but a quotient below the least normal number.
-/

namespace PocketCalculator.Proofs.LinearConversions

open PocketCalculator.Binary64
open PocketCalculator.Measure
open PocketCalculator.Proofs.ConverterRuns
open PocketCalculator.Proofs.ExactValues
open PocketCalculator.Proofs.FloatArithmetic
open PocketCalculator.Proofs.NearestMagnitude

/-- What every rate is: finite, not zero, and without a sign. -/
structure IsRate (y : Float) : Prop where
  positive : isNegative y = false
  finite : magnitude y < infinite
  nonzero : units y ≠ 0

theorem isRate_of_rate? {unit : MeasureUnit} {y : Float} (h : unit.rate? = some y) : IsRate y := by
  cases unit <;> cases h <;> exact ⟨by decide +kernel, by decide +kernel, by decide +kernel⟩

theorem exists_two_pow_of_data {unit : MeasureUnit} {y : Float} (h : unit.rate? = some y)
    (hdata : unit.category = .data) : ∃ r, units y = 2 ^ r * one := by
  cases unit with
  | byte => cases h; exact ⟨0, by decide +kernel⟩
  | kilobyte => cases h; exact ⟨10, by decide +kernel⟩
  | megabyte => cases h; exact ⟨20, by decide +kernel⟩
  | gigabyte => cases h; exact ⟨30, by decide +kernel⟩
  | _ => cases hdata

/-- Whether the products and quotients of a conversion there and back are normal numbers. -/
structure StaysNormal (x a b : Float) : Prop where
  product : IsNormal (x * a)
  there : IsNormal (x * a / b)
  product_back : IsNormal (x * a / b * b)
  back : IsNormal (x * a / b * b / a)

section

variable {x a b : Float}

theorem zero_mul_rate (hx : magnitude x = 0) (ha : IsRate a) : x * a = x := by
  have hfinite : magnitude x < infinite := by rw [hx]; decide
  rw [mul_eq hfinite ha.finite, ha.positive, Bool.xor_false, units, hx, unitsOf_zero, Nat.zero_mul,
    nearest_zero pos_one, ← hx, ofMagnitude_magnitude hfinite.le]

theorem zero_div_rate (hx : magnitude x = 0) (ha : IsRate a) : x / a = x := by
  have hfinite : magnitude x < infinite := by rw [hx]; decide
  rw [div_eq hfinite ha.finite ha.nonzero, ha.positive, Bool.xor_false, units, hx, unitsOf_zero,
    Nat.zero_mul, nearest_zero (Nat.pos_of_ne_zero ha.nonzero), ← hx,
    ofMagnitude_magnitude hfinite.le]

end

theorem exists_factor {z q ε : ℚ} (hε : 0 ≤ ε) (h : |z - q| ≤ ε * |z|) :
    ∃ k, q = z * k ∧ |k - 1| ≤ ε := by
  by_cases hzero : z = 0
  · subst hzero
    refine ⟨1, ?_, by simpa using hε⟩
    simpa using h
  · refine ⟨q / z, (mul_div_cancel₀ q hzero).symm, ?_⟩
    rw [div_sub_one hzero, abs_div, div_le_iff₀ (abs_pos.mpr hzero), abs_sub_comm]
    exact h

theorem abs_mul_sub_one_le {k l δ ε : ℚ} (hk : |k - 1| ≤ δ) (hl : |l - 1| ≤ ε) :
    |k * l - 1| ≤ δ * ε + δ + ε := by
  have hsplit : k * l - 1 = (k - 1) * (l - 1) + (k - 1) + (l - 1) := by ring
  rw [hsplit]
  calc |(k - 1) * (l - 1) + (k - 1) + (l - 1)|
      ≤ |(k - 1) * (l - 1)| + |k - 1| + |l - 1| := abs_add_three ..
    _ ≤ δ * ε + δ + ε := by
      rw [abs_mul]
      gcongr
      exact (abs_nonneg _).trans hk

/-- Four roundings, of which the last two undo what the first two compute. -/
theorem abs_roundTrip_sub_le {x a b p q r s : ℚ} (ha : a ≠ 0) (hb : b ≠ 0)
    (hp : |p - x * a| ≤ 1 / 2 ^ 53 * |p|) (hq : |q - p / b| ≤ 1 / 2 ^ 53 * |q|)
    (hr : |r - q * b| ≤ 1 / 2 ^ 53 * |r|) (hs : |s - r / a| ≤ 1 / 2 ^ 53 * |s|) :
    |s - x| ≤ 1 / 2 ^ 50 * |x| := by
  obtain ⟨k, hxk, hk⟩ := exists_factor (by positivity) hp
  obtain ⟨l, hpl, hl⟩ := exists_factor (by positivity) hq
  obtain ⟨m, hqm, hm⟩ := exists_factor (by positivity) hr
  obtain ⟨n, hrn, hn⟩ := exists_factor (by positivity) hs
  rw [div_eq_iff hb] at hpl
  rw [div_eq_iff ha] at hrn
  have hx : x = s * (k * l * (m * n)) := by
    refine mul_right_cancel₀ ha ?_
    calc x * a = q * b * (k * l) := by rw [hxk, hpl]; ring
      _ = s * (k * l * (m * n)) * a := by rw [hqm, hrn]; ring
  have hfactor : |k * l * (m * n) - 1| ≤ 5 / 2 ^ 53 :=
    (abs_mul_sub_one_le (abs_mul_sub_one_le hk hl) (abs_mul_sub_one_le hm hn)).trans (by norm_num)
  have herror : |s - x| ≤ 5 / 2 ^ 53 * |s| := by
    have hsplit : s - x = s * (1 - k * l * (m * n)) := by rw [hx]; ring
    rw [hsplit, abs_mul, abs_sub_comm, mul_comm]
    exact mul_le_mul_of_nonneg_right hfactor (abs_nonneg s)
  have hlarge : |s| ≤ |x| + |s - x| := by
    have habs := abs_add_le x (s - x)
    rwa [add_sub_cancel] at habs
  have hx0 := abs_nonneg x
  have he0 := abs_nonneg (s - x)
  norm_num at herror ⊢
  linarith

section

variable {x a b : Float} (hx : magnitude x < infinite) (ha : IsRate a) (hb : IsRate b)
include hx ha hb

theorem abs_exact_roundTrip_sub_le (h : StaysNormal x a b) :
    |exact (x * a / b * b / a) - exact x| ≤ 1 / 2 ^ 50 * |exact x| :=
  abs_roundTrip_sub_le (exact_ne_zero ha.nonzero) (exact_ne_zero hb.nonzero)
    (abs_exact_mul_sub_le hx ha.finite h.product)
    (abs_exact_div_sub_le h.product.finite hb.finite hb.nonzero h.there)
    (abs_exact_mul_sub_le h.there.finite hb.finite h.product_back)
    (abs_exact_div_sub_le h.product_back.finite ha.finite ha.nonzero h.back)

end

/-- The least normal number. -/
def leastNormal : ℚ := 2 ^ 52 / one

theorem leastNormal_le_abs_exact {x : Float} (h : IsNormal x) : leastNormal ≤ |exact x| := by
  rw [abs_exact, leastNormal]
  have hunits : 2 ^ 52 ≤ units x := unitsOf_le_iff.mpr h.least
  exact div_le_div_of_nonneg_right (by exact_mod_cast hunits) cast_one_pos.le

section

variable {x a b : Float}

theorem isNegative_mul_rate (hx : magnitude x < infinite) (ha : IsRate a) :
    isNegative (x * a) = isNegative x := by
  rw [mul_eq hx ha.finite, isNegative_ofMagnitude _ (nearest_le_infinite ..), ha.positive,
    Bool.xor_false]

theorem isNegative_div_rate (hx : magnitude x < infinite) (ha : IsRate a) :
    isNegative (x / a) = isNegative x := by
  rw [div_eq hx ha.finite ha.nonzero, isNegative_ofMagnitude _ (nearest_le_infinite ..),
    ha.positive, Bool.xor_false]

theorem div_rate_eq {p : Float} (hp : magnitude p < infinite) (hx : magnitude x < infinite)
    (ha : IsRate a) (hsign : isNegative p = isNegative x) (h : exact p = exact x * exact a) :
    p / a = x := by
  have hunits : units p * one = units x * units a := by
    have habs := congrArg abs h
    rw [abs_mul, abs_exact, abs_exact, abs_exact, div_mul_div_comm,
      div_eq_div_iff cast_one_pos.ne' (mul_pos cast_one_pos cast_one_pos).ne', ← mul_assoc] at habs
    exact_mod_cast mul_right_cancel₀ cast_one_pos.ne' habs
  rw [div_eq hp ha.finite ha.nonzero, hunits, ha.positive, Bool.xor_false, hsign, units,
    nearest_unitsOf hx (Nat.pos_of_ne_zero ha.nonzero), ofMagnitude_magnitude hx.le]

theorem roundTrip_eq_of_two_pow {r t : Nat} (hx : magnitude x < infinite) (ha : IsRate a)
    (hb : IsRate b) (hr : units a = 2 ^ r * one) (ht : units b = 2 ^ t * one)
    (h : StaysNormal x a b) (hlarge : leastNormal ≤ |exact x * exact a / exact b|) :
    exact (x * a / b) = exact x * exact a / exact b ∧ x * a / b * b / a = x := by
  have hproduct : exact (x * a) = exact x * exact a :=
    exact_mul_of_two_pow hx ha.finite hr h.product.finite
  have hunits : 2 ^ 52 * 2 ^ t ≤ units (x * a) := by
    rw [← hproduct, abs_div, abs_exact, abs_exact, ht, leastNormal, Nat.cast_mul,
      mul_div_cancel_right₀ _ cast_one_pos.ne', div_right_comm,
      div_le_div_iff_of_pos_right cast_one_pos, le_div_iff₀ (by positivity)] at hlarge
    exact_mod_cast hlarge
  have hthere : exact (x * a / b) = exact x * exact a / exact b := by
    rw [← hproduct]
    exact exact_div_of_two_pow h.product.finite hb.finite ht h.there.finite hunits
  refine ⟨hthere, div_rate_eq h.product_back.finite hx ha ?_ ?_⟩
  · rw [isNegative_mul_rate h.there.finite hb, isNegative_div_rate h.product.finite hb,
      isNegative_mul_rate hx ha]
  · rw [exact_mul_of_two_pow h.there.finite hb.finite ht h.product_back.finite, hthere,
      div_mul_cancel₀ _ (exact_ne_zero hb.nonzero)]

end

/-- A linear conversion there and back, for zero and where all that is computed on the way is
normal, is off by less than the last three bits. With data it is exact both ways, but for a quotient
below the least normal number that is rounded up to it. -/
theorem linear_round_trip {x : Float} {category : Category} {source target : MeasureUnit}
    (hx : x.isFinite) (hcategory : category ≠ .temperature) (hsource : source.category = category)
    (htarget : target.category = category) :
    ∃ a b, source.rate? = some a ∧ target.rate? = some b ∧
      ((x == 0) = true ∨ StaysNormal x a b →
        let there := convert x source target category
        let back := convert there target source category
        |exact back - exact x| ≤ 1 / 2 ^ 50 * |exact x| ∧
          (category = .data →
            (exact there = exact x * exact a / exact b ↔
              (x == 0) = true ∨ leastNormal ≤ |exact x * exact a / exact b|) ∧
            ((x == 0) = true ∨ leastNormal ≤ |exact x * exact a / exact b| → back = x))) := by
  have hfinite := isFinite_iff.mp hx
  obtain ⟨a, hsourceRate⟩ := exists_rate (hsource.trans_ne hcategory)
  obtain ⟨b, htargetRate⟩ := exists_rate (htarget.trans_ne hcategory)
  have ha := isRate_of_rate? hsourceRate
  have hb := isRate_of_rate? htargetRate
  refine ⟨a, b, hsourceRate, htargetRate, fun hway => ?_⟩
  dsimp only
  rw [convert_of_rates htarget hsource hcategory htargetRate hsourceRate,
    convert_of_rates hsource htarget hcategory hsourceRate htargetRate]
  rcases hway with hzero | hnormal
  · have hmagnitude := (beq_zero_iff hfinite).mp hzero
    have hexact : exact x = 0 := by
      rw [exact, units, hmagnitude, unitsOf_zero, Nat.cast_zero, zero_div, mul_zero]
    rw [zero_mul_rate hmagnitude ha, zero_div_rate hmagnitude hb, zero_mul_rate hmagnitude hb,
      zero_div_rate hmagnitude ha, hexact]
    simp [hzero]
  · refine ⟨abs_exact_roundTrip_sub_le hfinite ha hb hnormal, fun hdata => ?_⟩
    obtain ⟨r, hr⟩ := exists_two_pow_of_data hsourceRate (hsource.trans hdata)
    obtain ⟨t, ht⟩ := exists_two_pow_of_data htargetRate (htarget.trans hdata)
    have hne : ¬ (x == 0) = true := by
      intro hzero
      have hmagnitude := (beq_zero_iff hfinite).mp hzero
      have hleast := hnormal.product.least
      rw [zero_mul_rate hmagnitude ha, hmagnitude] at hleast
      exact absurd hleast (by decide)
    have hexact := roundTrip_eq_of_two_pow hfinite ha hb hr ht hnormal
    refine ⟨⟨fun h => Or.inr ?_, fun h => (hexact (h.resolve_left hne)).1⟩,
      fun h => (hexact (h.resolve_left hne)).2⟩
    rw [← h]
    exact leastNormal_le_abs_exact hnormal.there

theorem linear_round_trip_gigabyte :
    let x : Float := 1234.5678
    let there := convert x .byte .gigabyte .data
    let back := convert there .gigabyte .byte .data
    |exact back - exact x| ≤ 1 / 2 ^ 50 * |exact x| ∧
      exact there = exact x * exact 1 / exact 1073741824 ∧ back = x := by
  obtain ⟨a, b, ha, hb, h⟩ :=
    @linear_round_trip 1234.5678 .data .byte .gigabyte (by decide +kernel) (by decide) rfl rfl
  cases ha
  cases hb
  have hnormal : StaysNormal 1234.5678 1 1073741824 := by
    refine ⟨⟨?_, ?_⟩, ⟨?_, ?_⟩, ⟨?_, ?_⟩, ⟨?_, ?_⟩⟩ <;> decide +kernel
  obtain ⟨hclose, hdata⟩ := h (Or.inr hnormal)
  have hlarge : leastNormal ≤ |exact 1234.5678 * exact 1 / exact 1073741824| := by
    decide +kernel
  exact ⟨hclose, (hdata rfl).1.mpr (Or.inr hlarge), (hdata rfl).2 (Or.inr hlarge)⟩

/-- Half a unit below the least normal number, a quotient is rounded up to it. Everything computed
is a normal number then, and the conversion back does not return. -/
theorem linear_round_trip_moves :
    let x := Float.ofBits 0x00AFFFFFFFFFFFFF
    let there := convert x .byte .kilobyte .data
    let back := convert there .kilobyte .byte .data
    MeasureUnit.byte.rate? = some 1 ∧ MeasureUnit.kilobyte.rate? = some 1024 ∧
      x.isFinite ∧ StaysNormal x 1 1024 ∧ exact there ≠ exact x * exact 1 / exact 1024 ∧
      back = Float.ofBits 0x00B0000000000000 ∧ back ≠ x := by
  refine ⟨rfl, rfl, by decide +kernel, ?_, by decide +kernel, by decide +kernel, by decide +kernel⟩
  refine ⟨⟨?_, ?_⟩, ⟨?_, ?_⟩, ⟨?_, ?_⟩, ⟨?_, ?_⟩⟩ <;> decide +kernel

end PocketCalculator.Proofs.LinearConversions

import Mathlib.Tactic.NormNum.Pow
import PocketCalculator.Binary64.Integral
import PocketCalculator.Proofs.ExactValues
import PocketCalculator.Proofs.FloatSpecials

/-!
Powers of ten. They are computed by repeated squaring, every product rounded. The errors are bounded
one product at a time, which is enough to tell which powers are exact, which are only finite, and
which are infinite.
-/

namespace PocketCalculator.Proofs.PowersOfTen

open Float.Model (Format)
open PocketCalculator.Binary64
open PocketCalculator.Proofs.ExactValues
open PocketCalculator.Proofs.FloatArithmetic
open PocketCalculator.Proofs.FloatWords
open PocketCalculator.Proofs.NearestMagnitude

/-- The number that rounding takes for infinity. -/
def overflow : ℚ := 2 ^ 1024

theorem unitsOf_infinite : unitsOf infinite = 2 ^ 1024 * one := by
  decide +kernel

theorem overflow_eq : overflow = unitsOf infinite / one := by
  rw [unitsOf_infinite, overflow, Nat.cast_mul, mul_div_cancel_right₀ _ cast_one_pos.ne',
    Nat.cast_pow, Nat.cast_two]

/-- One and more, infinity among it. -/
structure AtLeastOne (x : Float) : Prop where
  positive : isNegative x = false
  le_infinite : magnitude x ≤ infinite
  one_le : one ≤ units x

section

variable {x y : Float}

namespace AtLeastOne

theorem exact_eq (hx : AtLeastOne x) : exact x = units x / one := by
  rw [exact, hx.positive]
  exact one_mul _

theorem one_le_exact (hx : AtLeastOne x) : 1 ≤ exact x := by
  rw [hx.exact_eq, one_le_div₀ cast_one_pos]
  exact_mod_cast hx.one_le

theorem finite_iff (hx : AtLeastOne x) : magnitude x < infinite ↔ exact x < overflow := by
  rw [hx.exact_eq, overflow_eq, div_lt_div_iff_of_pos_right cast_one_pos, Nat.cast_lt]
  exact unitsOf_lt_iff.symm

theorem unpack_cases (hx : AtLeastOne x) :
    (magnitude x = infinite ∧ x.toModel.unpack = .infinity .positive) ∨
      magnitude x < infinite ∧ ∃ m e hpos, x.toModel.unpack = .finite .positive m e hpos := by
  rcases hx.le_infinite.lt_or_eq with hlt | heq
  · obtain ⟨m, d, -, -, hunits, hunpack⟩ := exists_canonical hlt
    obtain ⟨rfl, -⟩ | ⟨hpos, hcanonical⟩ := canonical_cases (isNegative x) m d
    · have hone := hx.one_le
      rw [hunits, Nat.zero_mul] at hone
      exact absurd pos_one hone.not_gt
    · rw [hcanonical, hx.positive] at hunpack
      exact Or.inr ⟨hlt, m, _, hpos, hunpack⟩
  · have hunpack := FloatSpecials.unpack_of_infinite heq
    rw [hx.positive] at hunpack
    exact Or.inl ⟨heq, hunpack⟩

theorem nearest_mul_eq_infinite (hx : AtLeastOne x) (hy : AtLeastOne y)
    (h : magnitude x = infinite ∨ magnitude y = infinite) :
    nearest (units x * units y) one = infinite := by
  refine (nearest_le_infinite ..).antisymm (le_nearest_of_le pos_one le_rfl ?_)
  rcases h with h | h
  · rw [units, h]
    exact Nat.mul_le_mul_left _ hy.one_le
  · rw [Nat.mul_comm, units, units, h]
    exact Nat.mul_le_mul_right _ hx.one_le

theorem mul_eq (hx : AtLeastOne x) (hy : AtLeastOne y) :
    x * y = ofMagnitude false (nearest (units x * units y) one) := by
  obtain ⟨hxinf, hxunpack⟩ | ⟨hxfinite, m, d, hm, hxunpack⟩ := hx.unpack_cases
  · rw [hx.nearest_mul_eq_infinite hy (Or.inl hxinf)]
    refine ofModel_pack_eq (u := .mul Format.binary64 x.toModel.unpack y.toModel.unpack)
      (.trans ?_ (pack_infinity false)) le_rfl
    obtain ⟨-, hyunpack⟩ | ⟨-, n, e, hn, hyunpack⟩ := hy.unpack_cases <;>
      rw [hxunpack, hyunpack] <;> rfl
  obtain ⟨hyinf, hyunpack⟩ | ⟨hyfinite, -⟩ := hy.unpack_cases
  · rw [hx.nearest_mul_eq_infinite hy (Or.inr hyinf)]
    refine ofModel_pack_eq (u := .mul Format.binary64 x.toModel.unpack y.toModel.unpack)
      (.trans ?_ (pack_infinity false)) le_rfl
    rw [hxunpack, hyunpack]
    rfl
  · rw [FloatArithmetic.mul_eq hxfinite hyfinite, hx.positive, hy.positive, Bool.xor_false]

theorem exists_mul_eq (hx : AtLeastOne x) (hy : AtLeastOne y) :
    ∃ b, IsNearest b (units x * units y) one ∧ one ≤ unitsOf b ∧
      x * y = ofMagnitude false (min infinite b) := by
  obtain ⟨b, hnearest, heq⟩ := exists_nearest_eq (units x * units y) pos_one
  obtain ⟨c, hc⟩ := exists_unitsOf_eq_mul_one (n := 1) (by decide)
  rw [Nat.one_mul] at hc
  refine ⟨b, hnearest, ?_, by rw [hx.mul_eq hy, heq]⟩
  rw [← hc, unitsOf_le_iff]
  refine hnearest.ge_of_le pos_one ?_
  rw [hc]
  exact Nat.mul_le_mul hx.one_le hy.one_le

theorem mul (hx : AtLeastOne x) (hy : AtLeastOne y) : AtLeastOne (x * y) := by
  obtain ⟨b, -, hone, hproduct⟩ := hx.exists_mul_eq hy
  have hle : min infinite b ≤ infinite := Nat.min_le_left ..
  rw [hproduct]
  refine ⟨isNegative_ofMagnitude _ hle, (magnitude_ofMagnitude _ hle).trans_le hle, ?_⟩
  rw [units_ofMagnitude _ hle, unitsOf_strictMono.monotone.map_min]
  exact le_min (by decide +kernel) hone

theorem exists_exact_mul (hx : AtLeastOne x) (hy : AtLeastOne y) :
    ∃ r, exact (x * y) = min overflow r ∧ |r - exact x * exact y| ≤ 1 / 2 ^ 53 * r ∧
      (overflow ≤ exact x * exact y → overflow ≤ r) := by
  obtain ⟨b, hnearest, hone, hproduct⟩ := hx.exists_mul_eq hy
  have hnormal : 2 ^ 52 ≤ b := by
    refine unitsOf_le_iff.mp (le_trans ?_ hone)
    decide +kernel
  have hexact : exact x * exact y = (units x * units y : Nat) / one / one := by
    rw [hx.exact_eq, hy.exact_eq, Nat.cast_mul]
    ring
  refine ⟨unitsOf b / one, ?_, ?_, fun h => ?_⟩
  · rw [(hx.mul hy).exact_eq, hproduct, units_ofMagnitude _ (Nat.min_le_left ..),
      unitsOf_strictMono.monotone.map_min, Nat.cast_min, overflow_eq,
      min_div_div_right cast_one_pos.le]
  · rw [hexact]
    exact abs_sub_le_of_isNearest pos_one hnearest hnormal
  · rw [overflow_eq, hexact, div_le_div_iff_of_pos_right cast_one_pos,
      le_div_iff₀ cast_one_pos] at h
    rw [overflow_eq, div_le_div_iff_of_pos_right cast_one_pos, Nat.cast_le, unitsOf_le_iff]
    exact hnearest.ge_of_le pos_one (by exact_mod_cast h)

end AtLeastOne

end

/-- The least factor by which rounding changes a number, with room to spare. -/
def shrink : ℚ := 1023 / 1024

/-- A float that stands for a power of ten, after some number of roundings. -/
structure IsPower (n roundings : Nat) (x : Float) : Prop where
  atLeastOne : AtLeastOne x
  low : min overflow (10 ^ n * shrink ^ roundings) ≤ exact x
  high : exact x ≤ 10 ^ n / shrink ^ roundings
  exact_eq : n ≤ 22 → exact x = 10 ^ n

theorem shrink_pos : 0 < shrink := by
  norm_num [shrink]

theorem exists_unitsOf_eq_ten_pow {n : Nat} (hn : n ≤ 22) :
    ∃ c < infinite, unitsOf c = 10 ^ n * one := by
  obtain ⟨places, -, hone⟩ := exists_one_eq
  have hfive : 5 ^ n ≤ 2 ^ 53 := (Nat.pow_le_pow_right (by decide) hn).trans (by decide)
  obtain ⟨c, hc⟩ := exists_unitsOf_eq hfive (n + places)
  have hunits : unitsOf c = 10 ^ n * one := by
    rw [hc, hone, Nat.pow_add, ← Nat.mul_assoc, ← Nat.mul_pow]
  refine ⟨c, ?_, hunits⟩
  rw [← unitsOf_lt_iff, hunits, unitsOf_infinite]
  have hpow : 10 ^ n ≤ 10 ^ 22 := Nat.pow_le_pow_right (by decide) hn
  exact Nat.mul_lt_mul_of_pos_right (hpow.trans_lt (by decide +kernel)) pos_one

section

variable {x y : Float} {m n k l : Nat}

theorem units_eq_of_exact {a : Nat} (hx : AtLeastOne x) (h : exact x = a) : units x = a * one := by
  rw [hx.exact_eq, div_eq_iff cast_one_pos.ne'] at h
  exact_mod_cast h

namespace IsPower

theorem of_exact (hx : AtLeastOne x) (h : exact x = 10 ^ n) : IsPower n 0 x := by
  refine ⟨hx, ?_, ?_, fun _ => h⟩
  · rw [pow_zero, mul_one, h]
    exact min_le_right ..
  · rw [pow_zero, div_one, h]

theorem exact_mul (hx : IsPower m k x) (hy : IsPower n l y) (h : m + n ≤ 22) :
    exact (x * y) = 10 ^ (m + n) := by
  obtain ⟨c, hfinite, hc⟩ := exists_unitsOf_eq_ten_pow h
  have hxunits : units x = 10 ^ m * one :=
    units_eq_of_exact hx.atLeastOne (by rw [hx.exact_eq (by omega)]; norm_cast)
  have hyunits : units y = 10 ^ n * one :=
    units_eq_of_exact hy.atLeastOne (by rw [hy.exact_eq (by omega)]; norm_cast)
  have hproduct : units x * units y = unitsOf c * one := by
    rw [hxunits, hyunits, hc]
    ring
  rw [(hx.atLeastOne.mul hy.atLeastOne).exact_eq, hx.atLeastOne.mul_eq hy.atLeastOne, hproduct,
    nearest_unitsOf hfinite pos_one, units_ofMagnitude _ hfinite.le, hc, Nat.cast_mul,
    mul_div_cancel_right₀ _ cast_one_pos.ne']
  norm_cast

theorem mul (hx : IsPower m k x) (hy : IsPower n l y) : IsPower (m + n) (k + l + 1) (x * y) := by
  obtain ⟨r, hr, herror, hover⟩ := hx.atLeastOne.exists_exact_mul hy.atLeastOne
  obtain ⟨hup, hdown⟩ := abs_sub_le_iff.mp herror
  have hs := shrink_pos
  have hxone := hx.atLeastOne.one_le_exact
  have hyone := hy.atLeastOne.one_le_exact
  have hshrink : shrink * (exact x * exact y) ≤ r := by
    rw [shrink]
    linarith [mul_nonneg (zero_le_one.trans hxone) (zero_le_one.trans hyone)]
  have hgrow : r ≤ exact x * exact y / shrink := by
    rw [shrink]
    linarith [mul_nonneg (zero_le_one.trans hxone) (zero_le_one.trans hyone)]
  refine ⟨hx.atLeastOne.mul hy.atLeastOne, ?_, ?_, hx.exact_mul hy⟩
  · rw [hr]
    refine le_min (min_le_left ..) ?_
    by_cases hlarge : overflow ≤ exact x * exact y
    · exact (min_le_left ..).trans (hover hlarge)
    have hxsmall : exact x < overflow :=
      (le_mul_of_one_le_right (zero_le_one.trans hxone) hyone).trans_lt (not_le.mp hlarge)
    have hysmall : exact y < overflow :=
      (le_mul_of_one_le_left (zero_le_one.trans hyone) hxone).trans_lt (not_le.mp hlarge)
    have hxlow := (min_le_iff.mp hx.low).resolve_left hxsmall.not_ge
    have hylow := (min_le_iff.mp hy.low).resolve_left hysmall.not_ge
    calc min overflow (10 ^ (m + n) * shrink ^ (k + l + 1))
        ≤ 10 ^ (m + n) * shrink ^ (k + l + 1) := min_le_right ..
      _ = shrink * (10 ^ m * shrink ^ k * (10 ^ n * shrink ^ l)) := by ring
      _ ≤ shrink * (exact x * exact y) := by gcongr
      _ ≤ r := hshrink
  · rw [hr]
    calc min overflow r ≤ r := min_le_right ..
      _ ≤ exact x * exact y / shrink := hgrow
      _ ≤ 10 ^ m / shrink ^ k * (10 ^ n / shrink ^ l) / shrink := by
        gcongr
        · exact hx.high
        · exact hy.high
      _ = 10 ^ (m + n) / shrink ^ (k + l + 1) := by
        rw [div_mul_div_comm, div_div, ← pow_add, ← pow_add, ← pow_succ]

/-- Repeated squaring rounds a base once less often than its exponent, a product just as often. -/
theorem powerBySquaring {base product : Float} {i j : Nat} (hbase : IsPower (i + 1) i base)
    (hproduct : IsPower j j product) (exponent : Nat) :
    IsPower (j + (i + 1) * exponent) (j + (i + 1) * exponent)
      (Binary64.powerBySquaring base product exponent) := by
  induction exponent using Nat.strongRecOn generalizing base product i j with
  | ind exponent ih =>
      have hstep : IsPower (j + (i + 1) * (exponent % 2)) (j + (i + 1) * (exponent % 2))
          (if exponent % 2 = 1 then product * base else product) := by
        rcases Nat.mod_two_eq_zero_or_one exponent with hbit | hbit <;> rw [hbit]
        · simpa using hproduct
        · simpa [Nat.add_assoc] using hproduct.mul hbase
      rw [Binary64.powerBySquaring]
      by_cases hlast : exponent < 2
      · have hsum : j + (i + 1) * (exponent % 2) = j + (i + 1) * exponent := by
          rw [Nat.mod_eq_of_lt hlast]
        rw [hsum] at hstep
        rwa [if_pos hlast]
      · have hsquare : IsPower (i + i + 1 + 1) (i + i + 1) (base * base) := by
          have hmul := hbase.mul hbase
          rwa [Nat.add_right_comm] at hmul
        have hrest := ih (exponent / 2) (by omega) hsquare hstep
        have hsum : j + (i + 1) * (exponent % 2) + (i + i + 1 + 1) * (exponent / 2) =
            j + (i + 1) * exponent := by
          conv_rhs => rw [← Nat.mod_add_div exponent 2]
          ring
        rw [hsum] at hrest
        rwa [if_neg hlast]

end IsPower

end

theorem isPower_powerBySquaring (exponent : Nat) :
    IsPower exponent exponent (powerBySquaring 10 1 exponent) := by
  have hbase : IsPower (0 + 1) 0 10 :=
    .of_exact ⟨by decide +kernel, by decide +kernel, by decide +kernel⟩ (by decide +kernel)
  have hproduct : IsPower 0 0 1 :=
    .of_exact ⟨by decide +kernel, by decide +kernel, by decide +kernel⟩ (by decide +kernel)
  simpa using hbase.powerBySquaring hproduct exponent

theorem magnitude_powerBySquaring_lt_iff {exponent : Nat} :
    magnitude (powerBySquaring 10 1 exponent) < infinite ↔ exponent ≤ 308 := by
  have hpower := isPower_powerBySquaring exponent
  rw [hpower.atLeastOne.finite_iff]
  constructor
  · intro hlt
    by_contra! hlarge
    have hlow := (min_le_iff.mp hpower.low).resolve_left hlt.not_ge
    have hbound : overflow ≤ (10 * shrink) ^ 309 := by
      decide +kernel
    have hmono : (10 * shrink) ^ 309 ≤ (10 * shrink) ^ exponent :=
      pow_le_pow_right₀ (by norm_num [shrink]) hlarge
    rw [← mul_pow] at hlow
    exact (hbound.trans (hmono.trans hlow)).not_gt hlt
  · intro hsmall
    have hbound : (10 / shrink) ^ 308 < overflow := by
      decide +kernel
    have hmono : (10 / shrink) ^ exponent ≤ (10 / shrink) ^ 308 :=
      pow_le_pow_right₀ (by norm_num [shrink]) hsmall
    have hhigh := hpower.high
    rw [← div_pow] at hhigh
    exact (hhigh.trans hmono).trans_lt hbound

theorem magnitude_powerBySquaring_eq {exponent : Nat} (h : 308 < exponent) :
    magnitude (powerBySquaring 10 1 exponent) = infinite := by
  have hnot := mt magnitude_powerBySquaring_lt_iff.mp h.not_ge
  exact (isPower_powerBySquaring exponent).atLeastOne.le_infinite.antisymm (not_lt.mp hnot)

end PocketCalculator.Proofs.PowersOfTen

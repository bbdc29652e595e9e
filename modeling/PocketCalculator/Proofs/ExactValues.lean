import Mathlib.Algebra.Order.Field.Rat
import Mathlib.Algebra.Order.Ring.Abs
import Mathlib.Tactic.FieldSimp
import Mathlib.Tactic.Positivity
import PocketCalculator.Proofs.FloatArithmetic

namespace PocketCalculator.Proofs.ExactValues

open PocketCalculator.Binary64
open PocketCalculator.Proofs.FloatArithmetic
open PocketCalculator.Proofs.NearestMagnitude

/-- The factor that a sign stands for. -/
def sign (negative : Bool) : ℚ := if negative then -1 else 1

/-- The number that a finite float stands for. -/
def exact (x : Float) : ℚ := sign (isNegative x) * (units x / one)

/-- A float that is neither infinite nor NaN, and neither zero nor subnormal. -/
structure IsNormal (x : Float) : Prop where
  least : 2 ^ 52 ≤ magnitude x
  finite : magnitude x < infinite

theorem sign_xor (s t : Bool) : sign (s ^^ t) = sign s * sign t := by
  cases s <;> cases t <;> norm_num [sign]

@[simp] theorem abs_sign (s : Bool) : |sign s| = 1 := by
  cases s <;> norm_num [sign]

theorem sign_mul_self (s : Bool) : sign s * sign s = 1 := by
  cases s <;> norm_num [sign]

theorem sign_ne_zero (s : Bool) : sign s ≠ 0 := by
  cases s <;> norm_num [sign]

theorem cast_one_pos : (0 : ℚ) < one :=
  Nat.cast_pos.mpr pos_one

theorem abs_exact (x : Float) : |exact x| = units x / one := by
  rw [exact, abs_mul, abs_sign, one_mul, abs_of_nonneg]
  exact div_nonneg (Nat.cast_nonneg _) cast_one_pos.le

theorem exact_ofMagnitude (negative : Bool) {b : Nat} (hb : b ≤ infinite) :
    exact (ofMagnitude negative b) = sign negative * (unitsOf b / one) := by
  rw [exact, isNegative_ofMagnitude negative hb, units_ofMagnitude negative hb]

theorem exact_ne_zero {x : Float} (h : units x ≠ 0) : exact x ≠ 0 :=
  mul_ne_zero (sign_ne_zero _) (div_ne_zero (Nat.cast_ne_zero.mpr h) cast_one_pos.ne')

theorem abs_sub_le_of_isNearest {b num den : Nat} (hden : 0 < den) (h : IsNearest b num den)
    (hb : 2 ^ 52 ≤ b) :
    |(unitsOf b / one : ℚ) - num / den / one| ≤ 1 / 2 ^ 53 * (unitsOf b / one) := by
  obtain ⟨hup, hdown⟩ := h.relative hb
  have hden' : (0 : ℚ) < den := Nat.cast_pos.mpr hden
  have hone := cast_one_pos
  have hup' : (2 : ℚ) ^ 53 * num ≤ 2 ^ 53 * (unitsOf b * den) + unitsOf b * den := by
    exact_mod_cast hup
  have hdown' : (2 : ℚ) ^ 53 * (unitsOf b * den) ≤ 2 ^ 53 * num + unitsOf b * den := by
    exact_mod_cast hdown
  rw [← sub_div, abs_div, abs_of_pos hone, ← mul_div_assoc]
  refine div_le_div_of_nonneg_right ?_ hone.le
  rw [abs_sub_le_iff]
  constructor
  · rw [sub_le_iff_le_add, ← sub_le_iff_le_add', le_div_iff₀ hden']
    linarith
  · rw [sub_le_iff_le_add, div_le_iff₀ hden']
    linarith

variable {x y : Float} {negative : Bool} {num den : Nat}

/-- A float that is rounded from a quotient of units. -/
def IsRounded (x : Float) (negative : Bool) (num den : Nat) : Prop :=
  0 < den ∧ x = ofMagnitude negative (nearest num den)

theorem IsRounded.abs_exact_sub_le (h : IsRounded x negative num den) (hx : IsNormal x) :
    |exact x - sign negative * (num / den / one)| ≤ 1 / 2 ^ 53 * |exact x| := by
  obtain ⟨hden, rfl⟩ := h
  obtain ⟨hleast, hfinite⟩ := hx
  rw [magnitude_ofMagnitude _ (nearest_le_infinite ..)] at hleast hfinite
  rw [exact_ofMagnitude _ hfinite.le, ← mul_sub, abs_mul, abs_mul, abs_sign, one_mul, one_mul,
    abs_of_nonneg (div_nonneg (Nat.cast_nonneg (unitsOf _)) cast_one_pos.le)]
  exact abs_sub_le_of_isNearest hden (isNearest_nearest hden hfinite) hleast

theorem IsRounded.exact_eq {b : Nat} (h : IsRounded x negative num den)
    (hx : magnitude x < infinite) (hb : unitsOf b * den = num) :
    exact x = sign negative * (num / den / one) := by
  obtain ⟨hden, rfl⟩ := h
  have hden' : (den : ℚ) ≠ 0 := Nat.cast_ne_zero.mpr hden.ne'
  rw [magnitude_ofMagnitude _ (nearest_le_infinite ..)] at hx
  have hnearest := isNearest_nearest hden hx
  have hexact := isNearest_unitsOf b hden
  rw [hb] at hexact
  rw [exact_ofMagnitude _ hx.le, hnearest.unique hden hexact, ← hb, Nat.cast_mul,
    mul_div_cancel_right₀ _ hden']

theorem isRounded_mul (hx : magnitude x < infinite) (hy : magnitude y < infinite) :
    IsRounded (x * y) (isNegative x ^^ isNegative y) (units x * units y) one :=
  ⟨pos_one, mul_eq hx hy⟩

theorem isRounded_div (hx : magnitude x < infinite) (hy : magnitude y < infinite)
    (hne : units y ≠ 0) :
    IsRounded (x / y) (isNegative x ^^ isNegative y) (units x * one) (units y) :=
  ⟨Nat.pos_of_ne_zero hne, div_eq hx hy hne⟩

theorem exact_mul_exact (x y : Float) :
    exact x * exact y =
      sign (isNegative x ^^ isNegative y) * ((units x * units y : Nat) / one / one) := by
  rw [exact, exact, sign_xor, Nat.cast_mul]
  ring

theorem exact_div_exact (x : Float) (hne : units y ≠ 0) :
    exact x / exact y =
      sign (isNegative x ^^ isNegative y) * ((units x * one : Nat) / units y / one) := by
  have hone := cast_one_pos.ne'
  have hunits : (units y : ℚ) ≠ 0 := Nat.cast_ne_zero.mpr hne
  have hsign := sign_ne_zero (isNegative y)
  rw [exact, exact, sign_xor, Nat.cast_mul]
  field_simp
  rw [sq, sign_mul_self, mul_one]

/-- The error of a product that is a normal number. -/
theorem abs_exact_mul_sub_le (hx : magnitude x < infinite) (hy : magnitude y < infinite)
    (h : IsNormal (x * y)) :
    |exact (x * y) - exact x * exact y| ≤ 1 / 2 ^ 53 * |exact (x * y)| := by
  rw [exact_mul_exact]
  exact (isRounded_mul hx hy).abs_exact_sub_le h

theorem abs_exact_div_sub_le (hx : magnitude x < infinite) (hy : magnitude y < infinite)
    (hne : units y ≠ 0) (h : IsNormal (x / y)) :
    |exact (x / y) - exact x / exact y| ≤ 1 / 2 ^ 53 * |exact (x / y)| := by
  rw [exact_div_exact x hne]
  exact (isRounded_div hx hy hne).abs_exact_sub_le h

theorem exact_mul_of_two_pow {r : Nat} (hx : magnitude x < infinite) (hy : magnitude y < infinite)
    (hpow : units y = 2 ^ r * one) (h : magnitude (x * y) < infinite) :
    exact (x * y) = exact x * exact y := by
  obtain ⟨m, d, hfits, -, hunits, -⟩ := exists_canonical hx
  obtain ⟨b, hb⟩ := exists_unitsOf_eq hfits.lt.le (d + r)
  rw [exact_mul_exact]
  refine (isRounded_mul hx hy).exact_eq h (b := b) ?_
  rw [hb, hunits, hpow]
  ring

theorem exact_div_of_two_pow {r : Nat} (hx : magnitude x < infinite) (hy : magnitude y < infinite)
    (hpow : units y = 2 ^ r * one) (h : magnitude (x / y) < infinite)
    (hlarge : 2 ^ 52 * 2 ^ r ≤ units x) : exact (x / y) = exact x / exact y := by
  obtain ⟨m, d, hfits, -, hunits, -⟩ := exists_canonical hx
  have hne : units y ≠ 0 := by
    rw [hpow]
    exact (Nat.mul_pos (Nat.two_pow_pos r) pos_one).ne'
  have hrd : r ≤ d := by
    rw [← Nat.pow_add, hunits] at hlarge
    have hexp := hfits.le_exponent hlarge
    omega
  obtain ⟨b, hb⟩ := exists_unitsOf_eq hfits.lt.le (d - r)
  rw [exact_div_exact x hne]
  refine (isRounded_div hx hy hne).exact_eq h (b := b) ?_
  have hsplit : 2 ^ d = 2 ^ (d - r) * 2 ^ r := by rw [← Nat.pow_add, Nat.sub_add_cancel hrd]
  rw [hb, hunits, hpow, hsplit]
  ring

end PocketCalculator.Proofs.ExactValues

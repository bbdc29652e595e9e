import PocketCalculator.Proofs.ResultRounding

/-!
Rounding a result twice. The result is near enough to a decimal that rounding the exact product with
ten to the ten would give that decimal back, but the product is rounded itself. So rounding again
moves a result if and only if its product is rounded up onto a half.
-/

namespace PocketCalculator.Proofs.RepeatedRounding

open PocketCalculator.Binary64
open PocketCalculator.Proofs.NearestMagnitude
open PocketCalculator.Proofs.ResultRounding

/-- Whether the scaled magnitude, itself rounded up, falls on a half. -/
def Overshoots (b : Nat) : Prop :=
  2 * (unitsOf (scaled b) % one) = one ∧ unitsOf b * 10 ^ 10 < unitsOf (scaled b)

theorem whole_eq {b n : Nat} (hlow : 2 * (n * one) ≤ 2 * unitsOf b + one)
    (hhigh : 2 * unitsOf b < 2 * (n * one) + one) : whole b = n := by
  have hscale (k : Nat) : k * (2 * one) = 2 * (k * one) := by ring
  refine Nat.div_eq_of_lt_le ?_ ?_ <;> rw [hscale]
  · exact hlow
  · rw [Nat.add_one_mul n one]
    omega

theorem one_dvd_of_le {b : Nat} (h : 2 ^ 52 * one ≤ unitsOf b) : one ∣ unitsOf b := by
  simpa using one_dvd_unitsOf le_rfl h

theorem not_overshoots_of_dvd {b : Nat} (h : one ∣ unitsOf (scaled b)) : ¬ Overshoots b := by
  rintro ⟨hhalf, -⟩
  rw [Nat.mod_eq_zero_of_dvd h] at hhalf
  exact pos_one.ne hhalf

theorem rounded_of_guard {b : Nat} (h : 2 ^ 53 * one ≤ unitsOf (scaled b)) :
    rounded b = b ∧ ¬ Overshoots b := by
  refine ⟨if_pos h, not_overshoots_of_dvd (one_dvd_of_le ?_)⟩
  omega

theorem half_apart {k : Nat} (h : 2 * (k % one) = one) (n : Nat) :
    2 * (n * one) + one ≤ 2 * k ∨ 2 * k + one ≤ 2 * (n * one) := by
  have hsplit := Nat.div_add_mod k one
  rcases Nat.lt_or_ge (k / one) n with hlt | hge
  · right
    have hmul := Nat.mul_le_mul_right one hlt
    linarith
  · left
    have hmul := Nat.mul_le_mul_right one hge
    linarith

section

variable {r n : Nat} (hr : IsDecimal r n)

include hr

theorem isNearest_scaled : IsNearest (scaled r) (unitsOf r * 10 ^ 10) 1 := by
  obtain ⟨b, hb, heq⟩ := exists_nearest_eq (unitsOf r * 10 ^ 10) Nat.one_pos
  obtain ⟨c, hc, hunits⟩ := exists_unitsOf_bound
  have hbc : b ≤ c := by
    refine hb.le_of_le Nat.one_pos ?_
    rw [hunits, Nat.mul_one]
    exact hr.scaled_le
  rwa [scaled, heq, Nat.min_eq_right (hbc.trans hc.le)]

theorem scaled_between :
    unitsOf (scaled r) = n * one ∨
      (unitsOf (scaled r) < n * one ∧
        2 * (unitsOf r * 10 ^ 10) ≤ unitsOf (scaled r) + n * one) ∨
      (n * one < unitsOf (scaled r) ∧
        n * one + unitsOf (scaled r) ≤ 2 * (unitsOf r * 10 ^ 10)) := by
  obtain ⟨c, hc⟩ := exists_unitsOf_eq_mul_one hr.le
  have hscaled := isNearest_scaled hr
  rw [← hc]
  rcases Nat.lt_trichotomy (scaled r) c with hlt | heq | hgt
  · exact Or.inr (Or.inl ⟨unitsOf_lt_iff.mpr hlt, by simpa using hscaled.le_mid hlt⟩)
  · exact Or.inl (congrArg unitsOf heq)
  · exact Or.inr (Or.inr ⟨unitsOf_lt_iff.mpr hgt, by simpa using hscaled.mid_le hgt⟩)

theorem decimal_dist {s : Nat} (hs : s ≤ 53) (h : unitsOf r < 2 ^ s * one) :
    2 ^ (53 - s) * (2 * (n * one)) ≤ 2 ^ (53 - s) * (2 * (unitsOf r * 10 ^ 10)) + one * 10 ^ 10 ∧
      2 ^ (53 - s) * (2 * (unitsOf r * 10 ^ 10)) ≤
        2 ^ (53 - s) * (2 * (n * one)) + one * 10 ^ 10 := by
  have hup := unitsOf_succ_le hs h
  have hdown : 2 ^ (53 - s) * unitsOf r ≤ 2 ^ (53 - s) * unitsOf (r - 1) + one := by
    rcases Nat.eq_zero_or_pos r with rfl | hpos
    · simp
    · have hpred : unitsOf (r - 1) < unitsOf r := unitsOf_lt_iff.mpr (by omega)
      have hstep := unitsOf_succ_le hs (hpred.trans h)
      rwa [Nat.sub_add_cancel hpos] at hstep
  have hlow := Nat.mul_le_mul_left (2 ^ (53 - s)) hr.nearest.low
  have hhigh := Nat.mul_le_mul_left (2 ^ (53 - s)) hr.nearest.high
  have hparity := Nat.zero_le (2 ^ (53 - s) * (r % 2))
  constructor <;> linarith

theorem scaled_dist {s : Nat} (hs : s ≤ 53) (h : unitsOf r < 2 ^ s * one) :
    2 ^ (53 - s) * (n * one) ≤ 2 ^ (53 - s) * unitsOf (scaled r) + one * 10 ^ 10 ∧
      2 ^ (53 - s) * unitsOf (scaled r) ≤ 2 ^ (53 - s) * (n * one) + one * 10 ^ 10 := by
  obtain ⟨hlow, hhigh⟩ := decimal_dist hr hs h
  rcases scaled_between hr with heq | ⟨hlt, hmid⟩ | ⟨hlt, hmid⟩
  · rw [heq]
    exact ⟨Nat.le_add_right .., Nat.le_add_right ..⟩
  · have hmul := Nat.mul_le_mul_left (2 ^ (53 - s)) hmid
    have hless := Nat.mul_le_mul_left (2 ^ (53 - s)) hlt.le
    constructor <;> linarith [Nat.zero_le (one * 10 ^ 10)]
  · have hmul := Nat.mul_le_mul_left (2 ^ (53 - s)) hmid
    have hless := Nat.mul_le_mul_left (2 ^ (53 - s)) hlt.le
    constructor <;> linarith [Nat.zero_le (one * 10 ^ 10)]

theorem rounded_of_close (hlow : 2 * (n * one) ≤ 2 * unitsOf (scaled r) + one)
    (hhigh : 2 * unitsOf (scaled r) < 2 * (n * one) + one) : rounded r = r := by
  unfold rounded
  split
  · rfl
  · rw [whole_eq hlow hhigh]
    exact nearest_eq_of_lt (Nat.pow_pos (by decide)) hr.nearest hr.lt_infinite

/-- Small results are spaced so finely that the scaled result stays near the decimal. -/
theorem rounded_of_small (h : unitsOf r < 2 ^ 18 * one) : rounded r = r ∧ ¬ Overshoots r := by
  obtain ⟨hlow, hhigh⟩ := scaled_dist hr (by decide) h
  have hone := pos_one
  norm_num at hlow hhigh
  refine ⟨rounded_of_close hr (by linarith) (by linarith), ?_⟩
  rintro ⟨hhalf, -⟩
  rcases half_apart hhalf n with hfar | hfar <;> linarith

theorem le_scaled {k l : Nat} (hl : l ≤ 2 ^ 53) (hkl : l ≤ k * 10 ^ 10)
    (h : k * one ≤ unitsOf r) : l * one ≤ unitsOf (scaled r) := by
  obtain ⟨c, hc⟩ := exists_unitsOf_eq_mul_one hl
  rw [← hc]
  refine unitsOf_le_iff.mpr ((isNearest_scaled hr).ge_of_le Nat.one_pos ?_)
  calc unitsOf c * 1 = l * one := by rw [Nat.mul_one, hc]
    _ ≤ k * 10 ^ 10 * one := Nat.mul_le_mul_right one hkl
    _ = k * one * 10 ^ 10 := Nat.mul_right_comm ..
    _ ≤ unitsOf r * 10 ^ 10 := Nat.mul_le_mul_right _ h

theorem scaled_cases (hlarge : 2 ^ 18 * one ≤ unitsOf r) (h : unitsOf r < 2 ^ 19 * one) :
    2 * unitsOf (scaled r) = 2 * (n * one) ∨ 2 * unitsOf (scaled r) + one = 2 * (n * one) ∨
      2 * unitsOf (scaled r) = 2 * (n * one) + one := by
  have hscaled : 2 ^ 51 * one ≤ unitsOf (scaled r) :=
    le_scaled hr (by norm_num) (by norm_num) hlarge
  obtain ⟨q, hq⟩ : one ∣ 2 * unitsOf (scaled r) := one_dvd_unitsOf (s := 51) (by decide) hscaled
  obtain ⟨hlow, hhigh⟩ := scaled_dist hr (by decide) h
  have hone := pos_one
  norm_num at hlow hhigh
  have hnq : 2 * n ≤ q + 1 := by
    by_contra! hlt
    have hmul := Nat.mul_le_mul_right one (show q + 2 ≤ 2 * n from hlt)
    linarith
  have hqn : q ≤ 2 * n + 1 := by
    by_contra! hlt
    have hmul := Nat.mul_le_mul_right one (show 2 * n + 2 ≤ q from hlt)
    linarith
  rw [hq]
  obtain rfl | rfl | hbelow : q = 2 * n ∨ q = 2 * n + 1 ∨ q + 1 = 2 * n := by omega
  · left
    ring
  · right
    right
    ring
  · right
    left
    rw [← Nat.mul_assoc, ← hbelow]
    ring

theorem overshoots_iff (hlarge : 2 ^ 18 * one ≤ unitsOf r) (h : unitsOf r < 2 ^ 19 * one) :
    Overshoots r ↔ 2 * unitsOf (scaled r) = 2 * (n * one) + one := by
  obtain ⟨hlow, hhigh⟩ := decimal_dist hr (by decide) h
  have hone := pos_one
  norm_num at hlow hhigh
  constructor
  · rintro ⟨hhalf, hup⟩
    norm_num at hup
    rcases half_apart hhalf n with hfar | hfar
    · rcases scaled_cases hr hlarge h with heq | heq | heq <;> linarith
    · linarith
  · intro heq
    constructor
    · rw [← Nat.mul_mod_mul_left, heq]
      have hscale : 2 * (n * one) + one = one + 2 * one * n := by ring
      rw [hscale, Nat.add_mul_mod_self_left, Nat.mod_eq_of_lt (by linarith)]
    · linarith

theorem rounded_of_medium (hlarge : 2 ^ 18 * one ≤ unitsOf r) (h : unitsOf r < 2 ^ 19 * one) :
    rounded r = r ↔ ¬ Overshoots r := by
  have hone := pos_one
  rw [overshoots_iff hr hlarge h]
  rcases scaled_cases hr hlarge h with heq | heq | heq
  · exact iff_of_true (rounded_of_close hr (by linarith) (by linarith)) (by linarith)
  · exact iff_of_true (rounded_of_close hr (by linarith) (by linarith)) (by linarith)
  refine iff_of_false (fun hfixed => ?_) (not_not_intro heq)
  have hover : Overshoots r := (overshoots_iff hr hlarge h).mpr heq
  have hguard : ¬ 2 ^ 53 * one ≤ unitsOf (scaled r) := fun hle => (rounded_of_guard hle).2 hover
  have hwhole : whole (scaled r) = n + 1 := by
    refine whole_eq ?_ ?_ <;> rw [Nat.add_one_mul n one] <;> linarith
  obtain ⟨hle, -⟩ | ⟨-, hnext⟩ := rounded_cases r
  · exact hguard hle
  rw [hfixed, hwhole] at hnext
  have hup := (decimal_dist hnext (by decide) h).1
  have hdown := (decimal_dist hr (by decide) h).2
  norm_num at hup hdown
  linarith

/-- An overshooting result is of some size, and still below the numbers without a half. -/
theorem bounds_of_overshoots (h : Overshoots r) :
    2 ^ 18 * one ≤ unitsOf r ∧ unitsOf r * 10 ^ 10 < 2 ^ 52 * one := by
  constructor
  · by_contra! hsmall
    exact (rounded_of_small hr hsmall).2 h
  · by_contra! hle
    refine not_overshoots_of_dvd (one_dvd_of_le ?_) h
    exact hle.trans h.2.le

theorem whole_dist {q : Nat} (hq : q < 2 ^ 53) (heq : unitsOf (scaled r) = q * one) :
    2 * (q * one) ≤ 2 * (unitsOf r * 10 ^ 10) + one ∧
      2 * (unitsOf r * 10 ^ 10) ≤ 2 * (q * one) + one := by
  have hscaled := isNearest_scaled hr
  have hone := pos_one
  constructor
  · rcases Nat.eq_zero_or_pos q with rfl | hpos
    · rw [Nat.zero_mul]
      exact Nat.zero_le _
    obtain ⟨c, hc⟩ := exists_unitsOf_eq_mul_one (n := q - 1) (by omega)
    have hprev : q * one = (q - 1) * one + one := by
      rw [← Nat.add_one_mul, Nat.sub_add_cancel hpos]
    have hmid := hscaled.mid_le (c := c) (unitsOf_lt_iff.mp (by rw [hc, heq]; linarith))
    rw [hc, heq, Nat.mul_one] at hmid
    linarith
  · obtain ⟨c, hc⟩ := exists_unitsOf_eq_mul_one (n := q + 1) (by omega)
    have hnext : (q + 1) * one = q * one + one := Nat.add_one_mul q one
    have hmid := hscaled.le_mid (c := c) (unitsOf_lt_iff.mp (by rw [hc, heq]; linarith))
    rw [hc, heq, Nat.mul_one] at hmid
    linarith

/-- Large results are spaced so widely that the scaled result cannot leave them. -/
theorem isNearest_of_large {q : Nat} (hlarge : 2 ^ 19 * one ≤ unitsOf r) (hq : q < 2 ^ 53)
    (heq : unitsOf (scaled r) = q * one) : IsNearest r (q * one) (10 ^ 10) := by
  rcases hlarge.eq_or_lt with hpower | hmore
  · -- At a power of two the step below is half as wide, but there the product is exact.
    obtain ⟨c, hc⟩ := exists_unitsOf_eq_mul_one (n := 2 ^ 19 * 10 ^ 10) (by norm_num)
    have hproduct : unitsOf c * 1 = unitsOf r * 10 ^ 10 := by
      rw [hc, ← hpower]
      ring
    have hexact := isNearest_unitsOf c Nat.one_pos
    rw [hproduct] at hexact
    have hsame : scaled r = c := (isNearest_scaled hr).unique Nat.one_pos hexact
    rw [← heq, hsame, ← Nat.mul_one (unitsOf c), hproduct]
    exact isNearest_unitsOf r (Nat.pow_pos (by decide))
  · obtain ⟨hlow, hhigh⟩ := whole_dist hr hq heq
    obtain ⟨c, hc⟩ := exists_unitsOf_eq_mul_one (n := 2 ^ 19) (by norm_num)
    have hcr : c < r := unitsOf_lt_iff.mp (hc ▸ hmore)
    have hup := le_unitsOf_succ (by decide) hlarge
    have hdown := le_unitsOf_succ (b := r - 1) (by decide)
      (hc.ge.trans (unitsOf_le_iff.mpr (Nat.le_sub_one_of_lt hcr)))
    rw [Nat.sub_add_cancel (Nat.zero_lt_of_lt hcr)] at hdown
    have hparity : r % 2 ≤ 1 := Nat.le_of_lt_succ (Nat.mod_lt r Nat.two_pos)
    have hone : 8 ≤ one := eight_le_one
    norm_num at hup hdown
    constructor <;> norm_num <;> linarith

theorem rounded_of_large (hlarge : 2 ^ 19 * one ≤ unitsOf r) :
    rounded r = r ∧ ¬ Overshoots r := by
  have hscaled : 2 ^ 52 * one ≤ unitsOf (scaled r) :=
    le_scaled hr (by norm_num) (by norm_num) hlarge
  have hdvd := one_dvd_of_le hscaled
  refine ⟨?_, not_overshoots_of_dvd hdvd⟩
  unfold rounded
  split
  · rfl
  · rename_i hguard
    obtain ⟨q, hq⟩ := hdvd
    rw [Nat.mul_comm] at hq
    have hlt : q < 2 ^ 53 := by
      by_contra! hle
      rw [hq] at hguard
      exact hguard (Nat.mul_le_mul_right one hle)
    have hone := pos_one
    rw [whole_eq (n := q) (by linarith) (by linarith)]
    exact nearest_eq_of_lt (Nat.pow_pos (by decide)) (isNearest_of_large hr hlarge hlt hq)
      hr.lt_infinite

theorem rounded_iff : rounded r = r ↔ ¬ Overshoots r := by
  rcases Nat.lt_or_ge (unitsOf r) (2 ^ 18 * one) with hsmall | hmedium
  · exact iff_of_true (rounded_of_small hr hsmall).1 (rounded_of_small hr hsmall).2
  rcases Nat.lt_or_ge (unitsOf r) (2 ^ 19 * one) with hless | hlarge
  · exact rounded_of_medium hr hmedium hless
  · exact iff_of_true (rounded_of_large hr hlarge).1 (rounded_of_large hr hlarge).2

end

/-- Rounding a rounded magnitude keeps it, unless it overshoots. -/
theorem rounded_rounded_iff (b : Nat) :
    rounded (rounded b) = rounded b ↔ ¬ Overshoots (rounded b) := by
  rcases rounded_cases b with ⟨hguard, heq⟩ | ⟨-, hdecimal⟩
  · rw [heq]
    exact iff_of_true heq (rounded_of_guard hguard).2
  · exact rounded_iff hdecimal

theorem bounds_of_rounded_overshoots {b : Nat} (h : Overshoots (rounded b)) :
    2 ^ 18 * one ≤ unitsOf (rounded b) ∧ unitsOf (rounded b) * 10 ^ 10 < 2 ^ 52 * one := by
  rcases rounded_cases b with ⟨hguard, heq⟩ | ⟨-, hdecimal⟩
  · rw [heq] at h
    exact absurd h (rounded_of_guard hguard).2
  · exact bounds_of_overshoots hdecimal h

end PocketCalculator.Proofs.RepeatedRounding

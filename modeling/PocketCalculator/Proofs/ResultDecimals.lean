import PocketCalculator.Proofs.DisplayedResult
import PocketCalculator.Proofs.ConversionText
import PocketCalculator.Proofs.ShortestDigits

/-!
The decimals of a result. A rounded result is nearest to a decimal with ten places. One that is too
large to be rounded lies where the next result is more than a unit in the tenth place away, so such
a decimal reads back to it as well.
-/

namespace PocketCalculator.Proofs.ResultDecimals

open PocketCalculator.Binary64
open PocketCalculator.Calculation
open PocketCalculator.Decimal
open PocketCalculator.Proofs.Characters
open PocketCalculator.Proofs.ConversionText
open PocketCalculator.Proofs.DisplayedResult
open PocketCalculator.Proofs.FloatArithmetic
open PocketCalculator.Proofs.NearestMagnitude
open PocketCalculator.Proofs.ResultRounding
open PocketCalculator.Proofs.ShortestDecimal
open PocketCalculator.Proofs.ShortestDigits

theorem step_tenth : step (-10) = one := Nat.one_mul one

theorem parts_tenth : parts (-10) = 10 ^ 10 := rfl

theorem lt_units_of_guard {b : Nat} (h : 2 ^ 53 * one ≤ unitsOf (scaled b)) :
    2 ^ 19 * one < unitsOf b := by
  by_contra! hle
  obtain ⟨c, hc⟩ := exists_unitsOf_eq_mul_one (n := 2 ^ 19 * 10 ^ 10) (by norm_num)
  have hscaled : unitsOf (scaled b) ≤ 2 ^ 19 * 10 ^ 10 * one := by
    rw [← hc]
    refine unitsOf_le_iff.mpr (nearest_le_of_le Nat.one_pos ?_)
    rw [hc, Nat.mul_one, Nat.mul_right_comm]
    exact Nat.mul_le_mul_right _ hle
  have hone := pos_one
  omega

theorem exists_readsBack_tenth {b : Nat} (h : 2 ^ 19 * one < unitsOf b) :
    ∃ n, ReadsBack b n (-10) := by
  obtain ⟨c, hc⟩ := exists_unitsOf_eq_mul_one (n := 2 ^ 19) (by norm_num)
  have hcb : c < b := unitsOf_lt_iff.mp (hc ▸ h)
  have hup := le_unitsOf_succ (by decide) h.le
  have hdown := le_unitsOf_succ (b := b - 1) (by decide)
    (hc.ge.trans (unitsOf_le_iff.mpr (Nat.le_sub_one_of_lt hcb)))
  rw [Nat.sub_add_cancel (Nat.zero_lt_of_lt hcb)] at hdown
  have hone := pos_one
  refine exists_readsBack_of_step_lt ?_
  rw [step_tenth, parts_tenth]
  norm_num at hup hdown ⊢
  linarith

/-- The shortest decimal of a rounded magnitude has ten places at most. -/
theorem neg_ten_le_exponent {b : Nat} (hfinite : b < infinite) (hne : rounded b ≠ 0) :
    -10 ≤ (shortest (rounded b)).exponent := by
  obtain ⟨n, hn⟩ : ∃ n, ReadsBack (rounded b) n (-10) := by
    rcases rounded_cases b with ⟨hguard, heq⟩ | ⟨-, hdecimal⟩
    · rw [heq]
      exact exists_readsBack_tenth (lt_units_of_guard hguard)
    · refine ⟨whole (scaled b), ?_⟩
      rw [ReadsBack, step_tenth, parts_tenth]
      exact hdecimal.nearest
  exact exponent_le_shortest (Nat.pos_of_ne_zero hne) (rounded_lt_infinite hfinite) hn

theorem point_not_mem_toDigits (n : Nat) : '.' ∉ Nat.toDigits 10 n := fun h =>
  absurd (isDigit_toDigits n '.' h) (by decide)

theorem length_of_text_eq {negative : Bool} {d : Scaled} {before after : List Char}
    (h : signed negative d.text = before ++ '.' :: after) :
    after.length = (-d.exponent).toNat := by
  have hwhole (n : Nat) : '.' ∉ signed negative (Nat.toDigits 10 n) := by
    cases negative <;> simp [signed, point_not_mem_toDigits]
  unfold Scaled.text at h
  split at h
  · rename_i hneg
    rw [pointed_of_ne (by omega), signed_append] at h
    have hplaces : d.exponent.natAbs ≠ 0 := by omega
    have hlow : d.digits % 10 ^ d.exponent.natAbs < 10 ^ d.exponent.natAbs :=
      Nat.mod_lt _ (Nat.pow_pos (by decide))
    have hpadded : '.' ∉ padded (d.digits % 10 ^ d.exponent.natAbs) d.exponent.natAbs :=
      fun hmem => absurd (isDigit_of_mem_padded hmem) (by decide)
    obtain ⟨-, -, rfl⟩ := (List.append_cons_inj_of_notMem (hwhole _) hpadded).mp h
    rw [length_padded hplaces hlow]
    omega
  · rw [Nat.pow_eq] at h
    exact absurd (h ▸ List.mem_append_right before List.mem_cons_self) (hwhole _)

/-- Behind the point of a result stand ten digits at most, also where the result is too large to be
rounded. -/
theorem decimals_of_result {value : Float} (hvalue : value.isFinite) {before after : List Char}
    (h : (formatResult value).toList = before ++ '.' :: after) :
    after.length ≤ resultDecimals.toNat := by
  have hfinite := isFinite_iff.mp hvalue
  rw [formatResult_eq hfinite] at h
  split at h
  · have hmem : '.' ∈ "0".toList := h ▸ List.mem_append_right before List.mem_cons_self
    exact absurd hmem (by decide)
  · rename_i hne
    rw [String.toList_ofList] at h
    have hexp := neg_ten_le_exponent hfinite hne
    have hten : resultDecimals.toNat = 10 := rfl
    rw [length_of_text_eq h]
    omega

theorem decimals_of_result_unrounded :
    roundDecimals (Float.ofBits 0x412E848033333334) resultDecimals =
        Float.ofBits 0x412E848033333334 ∧
      (formatResult (Float.ofBits 0x412E848033333334)).toList =
        "1000000".toList ++ '.' :: "1000000001".toList ∧
      "1000000001".toList.length ≤ resultDecimals.toNat := by
  have h : (formatResult (Float.ofBits 0x412E848033333334)).toList =
      "1000000".toList ++ '.' :: "1000000001".toList := by decide +kernel
  exact ⟨by decide +kernel, h, decimals_of_result (by decide +kernel) h⟩

end PocketCalculator.Proofs.ResultDecimals

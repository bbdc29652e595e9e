import PocketCalculator.Decimal.Numeral
import PocketCalculator.Decimal.Shortest
import PocketCalculator.Proofs.FloatArithmetic
import PocketCalculator.Proofs.LexicalGrammar

namespace PocketCalculator.Proofs.ShortestDecimal

open PocketCalculator.Binary64
open PocketCalculator.Decimal
open PocketCalculator.Proofs.Characters
open PocketCalculator.Proofs.FloatArithmetic
open PocketCalculator.Proofs.LexicalGrammar
open PocketCalculator.Proofs.NearestMagnitude

/-- A number below a power of ten with its leading zeros. -/
def padded (n places : Nat) : List Char :=
  List.replicate (places - (Nat.toDigits 10 n).length) '0' ++ Nat.toDigits 10 n

theorem length_padded {n places : Nat} (hplaces : places ≠ 0) (h : n < 10 ^ places) :
    (padded n places).length = places := by
  have hlength := (Nat.length_toDigits_le_iff (by decide) (Nat.pos_of_ne_zero hplaces)).mpr h
  rw [padded, List.length_append, List.length_replicate]
  omega

theorem ofDigitChars_padded (n places init : Nat) (hplaces : places ≠ 0) (h : n < 10 ^ places) :
    Nat.ofDigitChars 10 (padded n places) init = 10 ^ places * init + n := by
  rw [Nat.ofDigitChars_eq_ofDigitChars_zero, length_padded hplaces h, padded,
    Nat.ofDigitChars_append, Nat.ofDigitChars_replicate_zero, Nat.mul_zero,
    Nat.ofDigitChars_ten_toDigits]

theorem isDigit_of_mem_padded {n places : Nat} {c : Char} (h : c ∈ padded n places) :
    c.isDigit := by
  rcases List.mem_append.mp h with h | h
  · rw [List.eq_of_mem_replicate h]
    rfl
  · exact isDigit_toDigits n c h

/-- The numeral in which a scaled decimal is written. -/
def numeralOf (d : Scaled) : Numeral :=
  if d.exponent < 0 then
    ⟨Nat.toDigits 10 (d.digits / 10 ^ d.exponent.natAbs), true,
      padded (d.digits % 10 ^ d.exponent.natAbs) d.exponent.natAbs⟩
  else ⟨Nat.toDigits 10 (d.digits * 10 ^ d.exponent.toNat), false, []⟩

theorem text_numeralOf (d : Scaled) : (numeralOf d).text = d.text := by
  unfold numeralOf Scaled.text
  split
  · rw [pointed, if_neg (by omega)]
    rfl
  · exact List.append_nil _

theorem isLiteral_numeralOf (d : Scaled) : IsLiteral (numeralOf d) := by
  unfold numeralOf
  split
  · exact ⟨isDigit_toDigits _, fun c hc => isDigit_of_mem_padded hc, by simp,
      by simp [Numeral.isEmpty]⟩
  · exact ⟨isDigit_toDigits _, by simp, fun _ => rfl, by simp [Numeral.isEmpty]⟩

theorem exists_text_eq_append (d : Scaled) : ∃ start c, d.text = start ++ [c] ∧ c.isDigit := by
  have hlast {digits : List Char} (hne : digits ≠ []) (hall : ∀ c ∈ digits, c.isDigit) :
      ∃ start c, digits = start ++ [c] ∧ c.isDigit :=
    ⟨_, _, (List.dropLast_append_getLast hne).symm, hall _ (List.getLast_mem hne)⟩
  have hliteral := isLiteral_numeralOf d
  rw [← text_numeralOf, Numeral.text]
  unfold numeralOf at hliteral ⊢
  split at hliteral
  · rename_i hneg
    obtain ⟨start, c, heq, hc⟩ := hlast (by simp [padded]) hliteral.fraction
    rw [if_pos hneg]
    exact ⟨_, c, by rw [heq, ← List.append_assoc, ← List.append_assoc], hc⟩
  · rename_i hneg
    obtain ⟨start, c, heq, hc⟩ := hlast (by simp) hliteral.whole
    rw [if_neg hneg]
    exact ⟨start, c, by simpa using heq, hc⟩

theorem toFloat_numeralOf (negative : Bool) (d : Scaled) :
    (numeralOf d).toFloat negative =
      ofMagnitude negative
        (nearest (d.digits * 10 ^ d.exponent.toNat * one) (10 ^ (-d.exponent).toNat)) := by
  unfold numeralOf
  split
  · rename_i hneg
    have hplaces : d.exponent.natAbs ≠ 0 := by omega
    have hlow : d.digits % 10 ^ d.exponent.natAbs < 10 ^ d.exponent.natAbs :=
      Nat.mod_lt _ (Nat.pow_pos (by decide))
    have hup : d.exponent.toNat = 0 := by omega
    have hdown : (-d.exponent).toNat = d.exponent.natAbs := by omega
    rw [Numeral.toFloat, Nat.ofDigitChars_append, Nat.ofDigitChars_ten_toDigits,
      ofDigitChars_padded _ _ _ hplaces hlow, length_padded hplaces hlow, Nat.div_add_mod, hup,
      hdown, Nat.pow_zero, Nat.mul_one]
    rfl
  · rename_i hneg
    have hdown : (-d.exponent).toNat = 0 := by omega
    rw [Numeral.toFloat, List.append_nil, Nat.ofDigitChars_ten_toDigits, hdown]
    rfl

theorem isNearest_of_readsBack {b : Nat} {d : Scaled} (h : readsBack b d = true) :
    IsNearest b (d.digits * 10 ^ d.exponent.toNat * one) (10 ^ (-d.exponent).toNat) := by
  have hvalue : 2 * (d.digits * 10 ^ d.exponent.toNat * one) =
      2 * d.digits * Nat.pow 10 d.exponent.toNat * one := by
    rw [← Nat.mul_assoc, ← Nat.mul_assoc]
    rfl
  unfold readsBack at h
  dsimp only at h
  split at h
  · rename_i heven
    simp only [Bool.and_eq_true, decide_eq_true_eq] at h
    constructor <;> rw [heven, hvalue]
    · exact h.1
    · exact h.2
  · rename_i hodd
    have hparity : b % 2 = 1 := by omega
    simp only [Bool.and_eq_true, decide_eq_true_eq] at h
    constructor <;> rw [hparity, hvalue]
    · exact h.1
    · exact h.2

theorem readsBack_of_onGrid? {b : Nat} {exponent : Int} {d : Scaled}
    (h : onGrid? b exponent = some d) : readsBack b d = true := by
  unfold onGrid? at h
  dsimp only at h
  split at h
  · rename_i hdown hup
    split at h <;> cases h <;> assumption
  · rename_i hdown hup
    cases h
    assumption
  · rename_i hdown hup
    cases h
    assumption
  · cases h

theorem isNearest_exact (b : Nat) {places : Nat} (hone : one = 2 ^ places) :
    IsNearest b (unitsOf b * 5 ^ places * 10 ^ 0 * one) (10 ^ places) := by
  refine (isNearest_unitsOf b Nat.one_pos).congr Nat.one_pos (Nat.pow_pos (by decide)) ?_
  rw [hone, Nat.pow_zero, Nat.mul_one, Nat.mul_one, Nat.mul_one, Nat.mul_assoc, ← Nat.mul_pow]

theorem isNearest_shortest (b : Nat) :
    IsNearest b ((shortest b).digits * 10 ^ (shortest b).exponent.toNat * one)
      (10 ^ (-(shortest b).exponent).toNat) := by
  unfold shortest
  dsimp only
  cases hfound : ((List.range 22).map fun k : Nat =>
      leadingExponent (unitsOf b) - (k : Int)).findSome? (onGrid? b) with
  | some d =>
      obtain ⟨exponent, -, hgrid⟩ := List.exists_of_findSome?_eq_some hfound
      exact isNearest_of_readsBack (readsBack_of_onGrid? hgrid)
  | none =>
      obtain ⟨places, hplaces, hone⟩ := exists_one_eq
      have hup : (-1074 : Int).toNat = 0 := rfl
      have hdown : (-(-1074 : Int)).toNat = places := by omega
      rw [Option.getD_none, hup, hdown, ← hplaces]
      exact isNearest_exact b hone

theorem toFloat_shortest (negative : Bool) {b : Nat} (hb : b < infinite) :
    (numeralOf (shortest b)).toFloat negative = ofMagnitude negative b := by
  rw [toFloat_numeralOf, nearest_eq_of_lt (Nat.pow_pos (by decide)) (isNearest_shortest b) hb]

end PocketCalculator.Proofs.ShortestDecimal

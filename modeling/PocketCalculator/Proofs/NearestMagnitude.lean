import Mathlib.Order.Monotone.Basic
import Mathlib.Tactic.Linarith
import Mathlib.Tactic.Ring
import PocketCalculator.Binary64.Units

/-!
Rounding on magnitudes. A magnitude is nearest to a quotient of units when the quotient lies between
the midpoints to its two neighbours, an even magnitude taking the midpoints; there is exactly one,
and rounding finds it.
-/

namespace PocketCalculator.Proofs.NearestMagnitude

open PocketCalculator.Binary64

/-- The exponent is kept as a variable, since its power is not to be computed. -/
theorem exists_one_eq : ∃ places, places = 1074 ∧ one = 2 ^ places := by
  unfold one
  generalize 1074 = places
  exact ⟨places, rfl, rfl⟩

theorem eight_le_one : 8 ≤ one := by
  obtain ⟨places, hplaces, heq⟩ := exists_one_eq
  rw [heq]
  change 2 ^ 3 ≤ 2 ^ places
  exact Nat.pow_le_pow_right Nat.two_pos (by omega)

theorem pos_one : 0 < one :=
  Nat.lt_of_lt_of_le (by decide) eight_le_one

/-- A significand and an exponent in the form in which a magnitude stores them. -/
structure Fits (m d : Nat) : Prop where
  lt : m < 2 ^ 53
  normal : d = 0 ∨ 2 ^ 52 ≤ m

theorem exists_fits (b : Nat) : ∃ m d, Fits m d ∧ b = d * 2 ^ 52 + m := by
  refine ⟨b - (b / 2 ^ 52 - 1) * 2 ^ 52, b / 2 ^ 52 - 1, ⟨?_, ?_⟩, ?_⟩ <;> omega

theorem unitsOf_of_lt {b : Nat} (h : b < 2 ^ 52) : unitsOf b = b :=
  if_pos h

theorem unitsOf_of_le {b : Nat} (h : 2 ^ 52 ≤ b) :
    unitsOf b = (2 ^ 52 + b % 2 ^ 52) * 2 ^ (b / 2 ^ 52 - 1) :=
  if_neg (Nat.not_lt.mpr h)

/-- A carry out of the significand is a carry into the exponent, so the bound is attained. -/
theorem unitsOf_add {m d : Nat} (hm : m ≤ 2 ^ 53) (hd : d = 0 ∨ 2 ^ 52 ≤ m) :
    unitsOf (d * 2 ^ 52 + m) = m * 2 ^ d := by
  by_cases hsmall : m < 2 ^ 52
  · have hzero : d = 0 := by omega
    subst hzero
    rw [Nat.zero_mul, Nat.zero_add, Nat.pow_zero, Nat.mul_one, unitsOf_of_lt hsmall]
  rw [unitsOf_of_le (by omega)]
  by_cases hcarry : m = 2 ^ 53
  · subst hcarry
    have hmod : (d * 2 ^ 52 + 2 ^ 53) % 2 ^ 52 = 0 := by omega
    have hdiv : (d * 2 ^ 52 + 2 ^ 53) / 2 ^ 52 - 1 = d + 1 := by omega
    rw [hmod, hdiv, Nat.pow_succ]
    ring
  · have hmod : 2 ^ 52 + (d * 2 ^ 52 + m) % 2 ^ 52 = m := by omega
    have hdiv : (d * 2 ^ 52 + m) / 2 ^ 52 - 1 = d := by omega
    rw [hmod, hdiv]

theorem Fits.unitsOf_eq {m d : Nat} (h : Fits m d) : unitsOf (d * 2 ^ 52 + m) = m * 2 ^ d :=
  unitsOf_add h.lt.le h.normal

theorem Fits.unitsOf_succ {m d : Nat} (h : Fits m d) :
    unitsOf (d * 2 ^ 52 + m + 1) = (m + 1) * 2 ^ d := by
  rw [Nat.add_assoc]
  exact unitsOf_add h.lt (h.normal.imp_right Nat.le_succ_of_le)

theorem unitsOf_strictMono : StrictMono unitsOf := by
  refine strictMono_nat_of_lt_succ fun b => ?_
  obtain ⟨m, d, hfits, rfl⟩ := exists_fits b
  rw [hfits.unitsOf_eq, hfits.unitsOf_succ]
  exact Nat.mul_lt_mul_of_pos_right m.lt_succ_self (Nat.two_pow_pos d)

theorem unitsOf_lt_iff {b c : Nat} : unitsOf b < unitsOf c ↔ b < c :=
  unitsOf_strictMono.lt_iff_lt

theorem unitsOf_le_iff {b c : Nat} : unitsOf b ≤ unitsOf c ↔ b ≤ c :=
  unitsOf_strictMono.le_iff_le

@[simp] theorem unitsOf_zero : unitsOf 0 = 0 := rfl

theorem unitsOf_eq_zero_iff {b : Nat} : unitsOf b = 0 ↔ b = 0 :=
  unitsOf_strictMono.injective.eq_iff' unitsOf_zero

theorem exists_unitsOf_eq {m : Nat} (hm : m ≤ 2 ^ 53) (d : Nat) : ∃ b, unitsOf b = m * 2 ^ d := by
  induction d generalizing m with
  | zero => exact ⟨0 * 2 ^ 52 + m, unitsOf_add hm (Or.inl rfl)⟩
  | succ d ih =>
      by_cases hsmall : m ≤ 2 ^ 52
      · obtain ⟨b, hb⟩ := ih (m := 2 * m) (by omega)
        exact ⟨b, hb.trans (by ring)⟩
      · exact ⟨(d + 1) * 2 ^ 52 + m, unitsOf_add hm (Or.inr (by omega))⟩

theorem exists_unitsOf_eq_mul_one {n : Nat} (hn : n ≤ 2 ^ 53) : ∃ b, unitsOf b = n * one := by
  obtain ⟨places, -, hone⟩ := exists_one_eq
  rw [hone]
  exact exists_unitsOf_eq hn places

theorem Fits.le_exponent {m d j : Nat} (h : Fits m d) (hle : 2 ^ j ≤ m * 2 ^ d) : j ≤ d + 52 := by
  have hlt : 2 ^ j < 2 ^ (53 + d) := by
    rw [Nat.pow_add]
    exact hle.trans_lt (Nat.mul_lt_mul_of_pos_right h.lt (Nat.two_pow_pos d))
  have hexp : j < 53 + d := (Nat.pow_lt_pow_iff_right Nat.one_lt_two).mp hlt
  omega

theorem Fits.exponent_lt {m d j : Nat} (h : Fits m d) (hlt : m * 2 ^ d < 2 ^ j) :
    d = 0 ∨ d + 52 < j := by
  refine h.normal.imp_right fun hm => ?_
  have hle : 2 ^ (52 + d) < 2 ^ j := by
    rw [Nat.pow_add]
    exact (Nat.mul_le_mul_right _ hm).trans_lt hlt
  have hexp : 52 + d < j := (Nat.pow_lt_pow_iff_right Nat.one_lt_two).mp hle
  omega

theorem exists_fits_of_le {b s : Nat} (hs : s ≤ 52) (h : 2 ^ s * one ≤ unitsOf b) :
    ∃ m d, Fits m d ∧ b = d * 2 ^ 52 + m ∧ one ∣ 2 ^ (52 - s) * 2 ^ d := by
  obtain ⟨places, hplaces, hone⟩ := exists_one_eq
  obtain ⟨m, d, hfits, rfl⟩ := exists_fits b
  rw [hone, ← Nat.pow_add, hfits.unitsOf_eq] at h
  have hexp := hfits.le_exponent h
  refine ⟨m, d, hfits, rfl, ?_⟩
  rw [hone, ← Nat.pow_add]
  exact Nat.pow_dvd_pow 2 (by omega)

theorem one_dvd_unitsOf {b s : Nat} (hs : s ≤ 52) (h : 2 ^ s * one ≤ unitsOf b) :
    one ∣ 2 ^ (52 - s) * unitsOf b := by
  obtain ⟨m, d, hfits, rfl, hdvd⟩ := exists_fits_of_le hs h
  rw [hfits.unitsOf_eq, Nat.mul_left_comm]
  exact Dvd.dvd.mul_left hdvd m

theorem le_unitsOf_succ {b s : Nat} (hs : s ≤ 52) (h : 2 ^ s * one ≤ unitsOf b) :
    2 ^ (52 - s) * unitsOf b + one ≤ 2 ^ (52 - s) * unitsOf (b + 1) := by
  obtain ⟨m, d, hfits, rfl, hdvd⟩ := exists_fits_of_le hs h
  have hgap : one ≤ 2 ^ (52 - s) * 2 ^ d :=
    Nat.le_of_dvd (Nat.mul_pos (Nat.two_pow_pos _) (Nat.two_pow_pos d)) hdvd
  rw [hfits.unitsOf_succ, hfits.unitsOf_eq, Nat.succ_mul, Nat.mul_add]
  exact Nat.add_le_add_left hgap _

theorem unitsOf_succ_le {b s : Nat} (hs : s ≤ 53) (h : unitsOf b < 2 ^ s * one) :
    2 ^ (53 - s) * unitsOf (b + 1) ≤ 2 ^ (53 - s) * unitsOf b + one := by
  obtain ⟨places, hplaces, hone⟩ := exists_one_eq
  obtain ⟨m, d, hfits, rfl⟩ := exists_fits b
  rw [hone, ← Nat.pow_add, hfits.unitsOf_eq] at h
  have hexp := hfits.exponent_lt h
  have hgap : 2 ^ (53 - s) * 2 ^ d ≤ 2 ^ places := by
    rw [← Nat.pow_add]
    exact Nat.pow_le_pow_right Nat.two_pos (by omega)
  rw [hfits.unitsOf_succ, hfits.unitsOf_eq, Nat.succ_mul, Nat.mul_add, hone]
  exact Nat.add_le_add_left hgap _

theorem unitsOf_succ_le_double {b : Nat} (hb : 0 < b) : unitsOf (b + 1) ≤ 2 * unitsOf b := by
  obtain ⟨m, d, hfits, rfl⟩ := exists_fits b
  have hm : 0 < m := by
    have hnormal := hfits.normal
    by_contra! hzero
    omega
  rw [hfits.unitsOf_succ, hfits.unitsOf_eq, ← Nat.mul_assoc]
  exact Nat.mul_le_mul_right _ (by omega)

theorem log2_unitsOf_lt {b : Nat} (hb : 0 < b) (hfinite : b < infinite) :
    (unitsOf b).log2 < 2098 := by
  have hne : unitsOf b ≠ 0 := mt unitsOf_eq_zero_iff.mp hb.ne'
  obtain ⟨m, d, hfits, rfl⟩ := exists_fits b
  have hinf : infinite = 2047 * 2 ^ 52 := rfl
  have hnormal := hfits.normal
  have hlt : unitsOf (d * 2 ^ 52 + m) < 2 ^ (53 + d) := by
    rw [hfits.unitsOf_eq, Nat.pow_add]
    exact Nat.mul_lt_mul_of_pos_right hfits.lt (Nat.two_pow_pos d)
  have hlog := (Nat.log2_lt hne).mpr hlt
  omega

theorem two_pow_log2_le_sub {b : Nat} (hb : 0 < b) :
    2 ^ ((unitsOf b).log2 + 1) + 2 ^ 54 * unitsOf (b - 1) ≤ 2 ^ 54 * unitsOf b := by
  obtain ⟨m, d, hfits, hpred⟩ := exists_fits (b - 1)
  have hstep : unitsOf b = unitsOf (b - 1) + 2 ^ d := by
    have hsucc : b = d * 2 ^ 52 + m + 1 := by omega
    rw [hpred, hsucc, hfits.unitsOf_succ, hfits.unitsOf_eq, Nat.add_one_mul]
  have hlt : unitsOf b < 2 ^ (54 + d) := by
    rw [hstep, hpred, hfits.unitsOf_eq, ← Nat.add_one_mul, Nat.pow_add]
    exact Nat.mul_lt_mul_of_pos_right (by have := hfits.lt; omega) (Nat.two_pow_pos d)
  have hlog : (unitsOf b).log2 + 1 ≤ 54 + d :=
    (Nat.log2_lt (by rw [Ne, unitsOf_eq_zero_iff]; omega)).mpr hlt
  have hpow : 2 ^ ((unitsOf b).log2 + 1) ≤ 2 ^ 54 * 2 ^ d := by
    rw [← Nat.pow_add]
    exact Nat.pow_le_pow_right Nat.two_pos hlog
  have hscaled : 2 ^ 54 * unitsOf b = 2 ^ 54 * unitsOf (b - 1) + 2 ^ 54 * 2 ^ d := by
    rw [hstep, Nat.mul_add]
  omega

/-- Whether the quotient of units `num / den` lies between the midpoints to the neighbours of the
magnitude `b`. The midpoints belong to an even magnitude. -/
structure IsNearest (b num den : Nat) : Prop where
  low : (unitsOf (b - 1) + unitsOf b) * den + b % 2 ≤ 2 * num
  high : 2 * num + b % 2 ≤ (unitsOf b + unitsOf (b + 1)) * den

theorem IsNearest.le_mid {b c num den : Nat} (h : IsNearest b num den) (hlt : b < c) :
    2 * num ≤ (unitsOf b + unitsOf c) * den := by
  have hhigh := h.high
  have hmono : (unitsOf b + unitsOf (b + 1)) * den ≤ (unitsOf b + unitsOf c) * den :=
    Nat.mul_le_mul_right den (Nat.add_le_add_left (unitsOf_le_iff.mpr hlt) _)
  omega

theorem IsNearest.mid_le {b c num den : Nat} (h : IsNearest b num den) (hlt : c < b) :
    (unitsOf c + unitsOf b) * den ≤ 2 * num := by
  have hlow := h.low
  have hmono : (unitsOf c + unitsOf b) * den ≤ (unitsOf (b - 1) + unitsOf b) * den :=
    Nat.mul_le_mul_right den (Nat.add_le_add_right (unitsOf_le_iff.mpr (by omega)) _)
  omega

theorem IsNearest.ge_of_le {b c num den : Nat} (h : IsNearest b num den) (hden : 0 < den)
    (hle : unitsOf c * den ≤ num) : c ≤ b := by
  by_contra! hlt
  have hmid := h.le_mid hlt
  have hless : unitsOf b * den < unitsOf c * den :=
    Nat.mul_lt_mul_of_pos_right (unitsOf_lt_iff.mpr hlt) hden
  rw [Nat.add_mul] at hmid
  omega

theorem IsNearest.le_of_le {b c num den : Nat} (h : IsNearest b num den) (hden : 0 < den)
    (hle : num ≤ unitsOf c * den) : b ≤ c := by
  by_contra! hlt
  have hmid := h.mid_le hlt
  have hless : unitsOf c * den < unitsOf b * den :=
    Nat.mul_lt_mul_of_pos_right (unitsOf_lt_iff.mpr hlt) hden
  rw [Nat.add_mul] at hmid
  omega

theorem IsNearest.le {b c num den : Nat} (hden : 0 < den) (hb : IsNearest b num den)
    (hc : IsNearest c num den) : b ≤ c := by
  by_contra! hlt
  have hmid : (unitsOf c + unitsOf (c + 1)) * den ≤ (unitsOf (b - 1) + unitsOf b) * den :=
    Nat.mul_le_mul_right den
      (Nat.add_le_add (unitsOf_le_iff.mpr (by omega)) (unitsOf_le_iff.mpr hlt))
  have hlow := hb.low
  have hhigh := hc.high
  -- Equal midpoints are those of neighbours, and one of two neighbours is odd.
  by_cases hnext : b = c + 1
  · omega
  · have hstrict : (unitsOf c + unitsOf (c + 1)) * den < (unitsOf (b - 1) + unitsOf b) * den :=
      Nat.mul_lt_mul_of_pos_right
        (Nat.add_lt_add_of_le_of_lt (unitsOf_le_iff.mpr (by omega))
          (unitsOf_lt_iff.mpr (by omega))) hden
    omega

theorem IsNearest.unique {b c num den : Nat} (hden : 0 < den) (hb : IsNearest b num den)
    (hc : IsNearest c num den) : b = c :=
  Nat.le_antisymm (hb.le hden hc) (hc.le hden hb)

theorem IsNearest.congr {b num den num' den' : Nat} (hden : 0 < den) (hden' : 0 < den')
    (heq : num * den' = num' * den) (h : IsNearest b num den) : IsNearest b num' den' := by
  have hscale (k : Nat) : k * den' * den = k * den * den' := Nat.mul_right_comm k den' den
  have hvalue : 2 * num' * den = 2 * num * den' := by rw [Nat.mul_assoc, ← heq, Nat.mul_assoc]
  have hlow := h.low
  have hhigh := h.high
  rcases Nat.mod_two_eq_zero_or_one b with hparity | hparity
  · rw [hparity] at hlow hhigh
    constructor <;> rw [hparity, Nat.add_zero] <;> refine Nat.le_of_mul_le_mul_right ?_ hden <;>
      rw [hscale, hvalue]
    · exact Nat.mul_le_mul_right den' hlow
    · exact Nat.mul_le_mul_right den' hhigh
  · rw [hparity] at hlow hhigh
    constructor <;> rw [hparity] <;> refine Nat.lt_of_mul_lt_mul_right (a := den) ?_ <;>
      rw [hscale, hvalue]
    · exact Nat.mul_lt_mul_of_pos_right hlow hden'
    · exact Nat.mul_lt_mul_of_pos_right hhigh hden'

theorem isNearest_unitsOf (b : Nat) {den : Nat} (hden : 0 < den) :
    IsNearest b (unitsOf b * den) den := by
  have hup : unitsOf b * den < unitsOf (b + 1) * den :=
    Nat.mul_lt_mul_of_pos_right (unitsOf_lt_iff.mpr b.lt_succ_self) hden
  have hmod : b % 2 ≤ 1 := Nat.le_of_lt_succ (Nat.mod_lt b Nat.two_pos)
  constructor <;> rw [Nat.add_mul]
  · rcases Nat.eq_zero_or_pos b with rfl | hpos
    · simp
    · have hdown : unitsOf (b - 1) * den < unitsOf b * den :=
        Nat.mul_lt_mul_of_pos_right (unitsOf_lt_iff.mpr (by omega)) hden
      omega
  · omega

theorem IsNearest.between {b low num high den : Nat} (hlow : IsNearest b low den)
    (hhigh : IsNearest b high den) (hle : low ≤ num) (hle' : num ≤ high) :
    IsNearest b num den :=
  ⟨hlow.low.trans (Nat.mul_le_mul_left 2 hle),
    (Nat.add_le_add_right (Nat.mul_le_mul_left 2 hle') _).trans hhigh.high⟩

theorem sub_le_of_normal {b : Nat} (h : 2 ^ 52 ≤ b) :
    2 ^ 52 * unitsOf b ≤ 2 ^ 52 * unitsOf (b - 1) + unitsOf b := by
  obtain ⟨m, d, hfits, hpred⟩ := exists_fits (b - 1)
  have hnormal := hfits.normal
  have hm : 2 ^ 52 ≤ m + 1 := by omega
  have hsucc : b = d * 2 ^ 52 + m + 1 := by omega
  have hwide := Nat.mul_le_mul_right (2 ^ d) hm
  rw [hpred, hsucc, hfits.unitsOf_succ, hfits.unitsOf_eq]
  linarith

theorem succ_le_of_normal {b : Nat} (h : 2 ^ 52 ≤ b) :
    2 ^ 52 * unitsOf (b + 1) ≤ 2 ^ 52 * unitsOf b + unitsOf b := by
  obtain ⟨m, d, hfits, rfl⟩ := exists_fits b
  have hnormal := hfits.normal
  have hm : 2 ^ 52 ≤ m := by omega
  have hwide := Nat.mul_le_mul_right (2 ^ d) hm
  rw [hfits.unitsOf_succ, hfits.unitsOf_eq]
  linarith

/-- A quotient and the normal number nearest to it differ by half a unit in the last place. -/
theorem IsNearest.relative {b num den : Nat} (h : IsNearest b num den) (hb : 2 ^ 52 ≤ b) :
    2 ^ 53 * num ≤ 2 ^ 53 * (unitsOf b * den) + unitsOf b * den ∧
      2 ^ 53 * (unitsOf b * den) ≤ 2 ^ 53 * num + unitsOf b * den := by
  have hlow := h.low
  have hhigh := h.high
  have hdown := Nat.mul_le_mul_right den (sub_le_of_normal hb)
  have hup := Nat.mul_le_mul_right den (succ_le_of_normal hb)
  rw [Nat.add_mul] at hlow hhigh hdown hup
  rw [Nat.mul_assoc, Nat.mul_assoc] at hdown hup
  omega

theorem quotientHalfEven_cases (num den : Nat) :
    quotientHalfEven num den = num / den ∧ 2 * (num % den) + num / den % 2 ≤ den ∨
      quotientHalfEven num den = num / den + 1 ∧
        den + (num / den + 1) % 2 ≤ 2 * (num % den) := by
  unfold quotientHalfEven
  dsimp only
  split
  · left
    omega
  · split
    · right
      omega
    · rcases Nat.mod_two_eq_zero_or_one (num / den) with h | h <;> rw [h]
      · left
        omega
      · right
        omega

theorem quotientHalfEven_mul_right {num den k : Nat} (hk : 0 < k) :
    quotientHalfEven (num * k) (den * k) = quotientHalfEven num den := by
  have hleft : 2 * (num % den * k) < den * k ↔ 2 * (num % den) < den := by
    rw [← Nat.mul_assoc]
    exact Nat.mul_lt_mul_right hk
  have hright : den * k < 2 * (num % den * k) ↔ den < 2 * (num % den) := by
    rw [← Nat.mul_assoc]
    exact Nat.mul_lt_mul_right hk
  simp only [quotientHalfEven, Nat.mul_div_mul_right _ _ hk, Nat.mul_mod_mul_right, hleft, hright]

theorem isNearest_quotientHalfEven {num den d : Nat} (hden : 0 < den)
    (hlow : d = 0 ∨ 2 ^ 52 * (den * 2 ^ d) ≤ num) (hhigh : num < 2 ^ 53 * (den * 2 ^ d)) :
    IsNearest (d * 2 ^ 52 + quotientHalfEven num (den * 2 ^ d)) num den := by
  have hstep : 0 < den * 2 ^ d := Nat.mul_pos hden (Nat.two_pow_pos d)
  have hsplit : den * 2 ^ d * (num / (den * 2 ^ d)) + num % (den * 2 ^ d) = num :=
    Nat.div_add_mod num (den * 2 ^ d)
  have hrest : num % (den * 2 ^ d) < den * 2 ^ d := Nat.mod_lt num hstep
  have hfits : Fits (num / (den * 2 ^ d)) d :=
    ⟨(Nat.div_lt_iff_lt_mul hstep).mpr hhigh,
      hlow.imp_right fun h => (Nat.le_div_iff_mul_le hstep).mpr h⟩
  have hscale (k : Nat) : k * 2 ^ d * den = den * 2 ^ d * k := by ring
  have hdown : unitsOf (d * 2 ^ 52 + num / (den * 2 ^ d)) * den =
      den * 2 ^ d * (num / (den * 2 ^ d)) := by rw [hfits.unitsOf_eq, hscale]
  have hup : unitsOf (d * 2 ^ 52 + num / (den * 2 ^ d) + 1) * den =
      den * 2 ^ d * (num / (den * 2 ^ d)) + den * 2 ^ d := by
    rw [hfits.unitsOf_succ, hscale, Nat.mul_succ]
  rcases quotientHalfEven_cases num (den * 2 ^ d) with ⟨heq, hhalf⟩ | ⟨heq, hhalf⟩ <;> rw [heq]
  · constructor <;> rw [Nat.add_mul]
    · rcases Nat.eq_zero_or_pos (d * 2 ^ 52 + num / (den * 2 ^ d)) with hzero | hpos
      · rw [hzero]
        simp
      · have hless : unitsOf (d * 2 ^ 52 + num / (den * 2 ^ d) - 1) * den <
            unitsOf (d * 2 ^ 52 + num / (den * 2 ^ d)) * den :=
          Nat.mul_lt_mul_of_pos_right (unitsOf_lt_iff.mpr (by omega)) hden
        omega
    · omega
  · rw [← Nat.add_assoc]
    constructor <;> rw [Nat.add_mul]
    · rw [Nat.add_sub_cancel]
      omega
    · have hmore : unitsOf (d * 2 ^ 52 + num / (den * 2 ^ d) + 1) * den <
          unitsOf (d * 2 ^ 52 + num / (den * 2 ^ d) + 1 + 1) * den :=
        Nat.mul_lt_mul_of_pos_right (unitsOf_lt_iff.mpr (Nat.lt_succ_self _)) hden
      omega

/-- Rounding finds the nearest magnitude, and infinity past the largest finite one. -/
theorem exists_nearest_eq (num : Nat) {den : Nat} (hden : 0 < den) :
    ∃ b, IsNearest b num den ∧ nearest num den = min infinite b := by
  refine ⟨_, isNearest_quotientHalfEven (d := (num / den).log2 - 52) hden ?_ ?_, ?_⟩
  · by_cases hlog : (num / den).log2 ≤ 52
    · exact Or.inl (Nat.sub_eq_zero_of_le hlog)
    · right
      have hself : 2 ^ (num / den).log2 ≤ num / den :=
        Nat.log2_self_le (by rintro h; simp [h] at hlog)
      have hpow : 2 ^ 52 * 2 ^ ((num / den).log2 - 52) = 2 ^ (num / den).log2 := by
        rw [← Nat.pow_add]
        congr 1
        omega
      calc 2 ^ 52 * (den * 2 ^ ((num / den).log2 - 52))
          = 2 ^ (num / den).log2 * den := by rw [← hpow]; ring
        _ ≤ num := (Nat.le_div_iff_mul_le hden).mp hself
  · have hself : num / den < 2 ^ ((num / den).log2 + 1) := Nat.lt_log2_self
    have hpow : 2 ^ ((num / den).log2 + 1) ≤ 2 ^ 53 * 2 ^ ((num / den).log2 - 52) := by
      rw [← Nat.pow_add]
      exact Nat.pow_le_pow_right Nat.two_pos (by omega)
    calc num < 2 ^ 53 * 2 ^ ((num / den).log2 - 52) * den :=
          (Nat.div_lt_iff_lt_mul hden).mp (hself.trans_le hpow)
      _ = 2 ^ 53 * (den * 2 ^ ((num / den).log2 - 52)) := by ring
  · rw [Nat.add_comm]
    rfl

theorem nearest_eq {b num den : Nat} (hden : 0 < den) (h : IsNearest b num den) :
    nearest num den = min infinite b := by
  obtain ⟨c, hc, heq⟩ := exists_nearest_eq num hden
  rw [heq, hc.unique hden h]

theorem nearest_eq_of_lt {b num den : Nat} (hden : 0 < den) (h : IsNearest b num den)
    (hfinite : b < infinite) : nearest num den = b :=
  (nearest_eq hden h).trans (Nat.min_eq_right hfinite.le)

theorem isNearest_nearest {num den : Nat} (hden : 0 < den) (h : nearest num den < infinite) :
    IsNearest (nearest num den) num den := by
  obtain ⟨b, hb, heq⟩ := exists_nearest_eq num hden
  have hmin : min infinite b = b := by omega
  rwa [heq, hmin]

theorem nearest_le_infinite (num den : Nat) : nearest num den ≤ infinite :=
  Nat.min_le_left ..

theorem nearest_le_of_le {c num den : Nat} (hden : 0 < den) (h : num ≤ unitsOf c * den) :
    nearest num den ≤ c := by
  obtain ⟨b, hb, heq⟩ := exists_nearest_eq num hden
  rw [heq]
  exact (Nat.min_le_right ..).trans (hb.le_of_le hden h)

theorem le_nearest_of_le {c num den : Nat} (hden : 0 < den) (hc : c ≤ infinite)
    (h : unitsOf c * den ≤ num) : c ≤ nearest num den := by
  obtain ⟨b, hb, heq⟩ := exists_nearest_eq num hden
  rw [heq]
  exact Nat.le_min.mpr ⟨hc, hb.ge_of_le hden h⟩

theorem nearest_congr {num den num' den' : Nat} (hden : 0 < den) (hden' : 0 < den')
    (heq : num * den' = num' * den) : nearest num den = nearest num' den' := by
  obtain ⟨b, hb, hnearest⟩ := exists_nearest_eq num hden
  rw [hnearest, nearest_eq hden' (hb.congr hden hden' heq)]

theorem nearest_unitsOf {b : Nat} (hb : b < infinite) {den : Nat} (hden : 0 < den) :
    nearest (unitsOf b * den) den = b :=
  nearest_eq_of_lt hden (isNearest_unitsOf b hden) hb

theorem nearest_zero {den : Nat} (hden : 0 < den) : nearest 0 den = 0 := by
  have h := nearest_unitsOf (b := 0) (by decide) hden
  rwa [unitsOf_zero, Nat.zero_mul] at h

end PocketCalculator.Proofs.NearestMagnitude

import PocketCalculator.Proofs.NearestMagnitude

namespace PocketCalculator.Proofs.FloatWords

open Float.Model (Format UnpackedFloat)
open Float.Model.UnpackedFloat (Sign packComponents unpackSign pack unpack)
open PocketCalculator.Binary64
open PocketCalculator.Proofs.NearestMagnitude

def signOf : Bool → Sign
  | true => .negative
  | false => .positive

/-- The word of a sign and a magnitude. -/
def word (negative : Bool) (b : Nat) : BitVec 64 :=
  packComponents Format.binary64 (signOf negative) (BitVec.ofNat 11 (b / 2 ^ 52))
    (BitVec.ofNat 52 b)

/-- The parts of a finite float in the form that arithmetic takes them. -/
def canonical (negative : Bool) (m d : Nat) : UnpackedFloat :=
  if h : m = 0 then .zero (signOf negative)
  else .finite (signOf negative) m (d - 1074) (Nat.pos_of_ne_zero h)

theorem canonical_cases (negative : Bool) (m d : Nat) :
    (m = 0 ∧ canonical negative m d = .zero (signOf negative)) ∨
      ∃ hpos, canonical negative m d = .finite (signOf negative) m (d - 1074) hpos := by
  by_cases h : m = 0
  · exact Or.inl ⟨h, dif_pos h⟩
  · exact Or.inr ⟨Nat.pos_of_ne_zero h, dif_neg h⟩

theorem toNat_word (negative : Bool) {b : Nat} (hb : b < 2 ^ 63) :
    (word negative b).toNat = (if negative then 2 ^ 63 else 0) + b := by
  have hexponent : b / 2 ^ 52 % 2 ^ 11 = b / 2 ^ 52 := Nat.mod_eq_of_lt (by omega)
  have hsign : (signOf negative).toBitVec.toNat = if negative then 1 else 0 := by
    cases negative <;> rfl
  simp only [word, packComponents, BitVec.toNat_append, BitVec.toNat_ofNat, hsign, hexponent]
  rw [← Nat.shiftLeft_add_eq_or_of_lt (b := b / 2 ^ 52) (by omega),
    ← Nat.shiftLeft_add_eq_or_of_lt (b := b % 2 ^ 52) (Nat.mod_lt _ (by decide))]
  simp only [Nat.shiftLeft_eq]
  cases negative <;> simp <;> omega

@[simp] theorem ofBitVec_toBitVec (sign : Sign) : Sign.ofBitVec sign.toBitVec = sign := by
  cases sign <;> rfl

@[simp] theorem unpackSign_packComponents {sign : Sign} {exponent : BitVec 11}
    {fraction : BitVec 52} :
    unpackSign (packComponents Format.binary64 sign exponent fraction) = sign.toBitVec := by
  change (sign.toBitVec ++ exponent ++ fraction).extractLsb' 63 1 = sign.toBitVec
  rw [BitVec.extractLsb'_append_eq_of_le (by decide),
    BitVec.extractLsb'_append_eq_of_le (by decide)]
  exact BitVec.extractLsb'_eq_self

theorem toNat_one_append (fraction : BitVec 52) :
    (1#1 ++ fraction).toNat = 2 ^ 52 + fraction.toNat := by
  rw [BitVec.toNat_append, ← Nat.shiftLeft_add_eq_or_of_lt fraction.isLt]
  rfl

theorem ofNat_ne {w i j : Nat} (hi : i < 2 ^ w) (hj : j < 2 ^ w) (h : i ≠ j) :
    BitVec.ofNat w i ≠ BitVec.ofNat w j := by
  intro heq
  have hnat := congrArg BitVec.toNat heq
  rw [BitVec.toNat_ofNat, BitVec.toNat_ofNat, Nat.mod_eq_of_lt hi, Nat.mod_eq_of_lt hj] at hnat
  exact h hnat

theorem finite_congr {sign : Sign} {m m' : Nat} {e e' : Int} {hpos : 0 < m} {hpos' : 0 < m'}
    (hm : m = m') (he : e = e') :
    UnpackedFloat.finite sign m e hpos = .finite sign m' e' hpos' := by
  subst hm he
  rfl

theorem unpack_packComponents {sign : Sign} {exponent : BitVec 11} {fraction : BitVec 52} :
    unpack Format.binary64 (packComponents Format.binary64 sign exponent fraction) =
      if exponent = -1#11 then
        if fraction = 0#52 then .infinity sign else .notANumber
      else if exponent = 0#11 then
        if h : fraction = 0#52 then .zero sign
        else
          .finite sign fraction.toNat
            ((exponent.toNat : Int) - (Format.binary64.exponentBias + 52 : Nat) + 1)
            (Nat.pos_of_ne_zero fun hzero => h (BitVec.eq_of_toNat_eq hzero))
      else
        .finite sign (1#1 ++ fraction).toNat
          ((exponent.toNat : Int) - (Format.binary64.exponentBias + 52 : Nat))
          (by rw [toNat_one_append]; omega) := by
  have hfraction := @Float.Model.UnpackedFloat.unpackMantissa_packComponents Format.binary64
    sign exponent fraction
  have hexponent := @Float.Model.UnpackedFloat.unpackExponent_packComponents Format.binary64
    sign exponent fraction
  have hsign : Sign.ofBitVec (unpackSign (packComponents Format.binary64 sign exponent fraction)) =
      sign := by
    rw [unpackSign_packComponents, ofBitVec_toBitVec]
  generalize packComponents Format.binary64 sign exponent fraction = b at *
  subst hfraction hexponent hsign
  rfl

theorem unpack_word (negative : Bool) {m d : Nat} (hfits : Fits m d)
    (hfinite : d * 2 ^ 52 + m < infinite) :
    unpack Format.binary64 (word negative (d * 2 ^ 52 + m)) = canonical negative m d := by
  have hm := hfits.lt
  have hinf : infinite = 2047 * 2 ^ 52 := rfl
  have hones : BitVec.ofNat 11 ((d * 2 ^ 52 + m) / 2 ^ 52) ≠ -1#11 :=
    ofNat_ne (j := 2047) (by omega) (by decide) (by omega)
  rw [word, unpack_packComponents, if_neg hones]
  by_cases hsmall : m < 2 ^ 52
  · obtain rfl : d = 0 := hfits.normal.resolve_right (by omega)
    have hexponent : (0 * 2 ^ 52 + m) / 2 ^ 52 = 0 := by omega
    have hfraction : (BitVec.ofNat 52 (0 * 2 ^ 52 + m)).toNat = m := by
      rw [BitVec.toNat_ofNat]
      omega
    rw [if_pos (by rw [hexponent])]
    by_cases hzero : m = 0
    · subst hzero
      rfl
    · have hne : BitVec.ofNat 52 (0 * 2 ^ 52 + m) ≠ 0#52 :=
        ofNat_ne (by omega) (by decide) (by omega)
      rw [canonical, dif_neg hzero, dif_neg hne]
      exact finite_congr hfraction (by rw [hexponent]; rfl)
  · have hexponent : (d * 2 ^ 52 + m) / 2 ^ 52 = d + 1 := by omega
    have hne : BitVec.ofNat 11 (d + 1) ≠ 0#11 := ofNat_ne (by omega) (by decide) (by omega)
    have hcode : (BitVec.ofNat 11 (d + 1)).toNat = d + 1 := by
      rw [BitVec.toNat_ofNat, Nat.mod_eq_of_lt (by omega)]
    have hfraction : 2 ^ 52 + (BitVec.ofNat 52 (d * 2 ^ 52 + m)).toNat = m := by
      rw [BitVec.toNat_ofNat]
      omega
    have hbias : ((d + 1 : Nat) : Int) - (Format.binary64.exponentBias + 52 : Nat) = d - 1074 := by
      change ((d + 1 : Nat) : Int) - (1023 + 52 : Nat) = d - 1074
      omega
    rw [hexponent, if_neg hne]
    rw [canonical, dif_neg (show m ≠ 0 by omega)]
    exact finite_congr ((toNat_one_append _).trans hfraction) (by rw [hcode]; exact hbias)

theorem unpack_word_infinite (negative : Bool) :
    unpack Format.binary64 (word negative infinite) = .infinity (signOf negative) := by
  cases negative <;> rfl

theorem unpack_word_nan (negative : Bool) {b : Nat} (hlow : infinite < b) (hhigh : b < 2 ^ 63) :
    unpack Format.binary64 (word negative b) = .notANumber := by
  have hinf : infinite = 2047 * 2 ^ 52 := rfl
  have hexponent : b / 2 ^ 52 = 2047 := by omega
  have hfraction : BitVec.ofNat 52 b ≠ 0#52 := by
    intro heq
    have hnat := congrArg BitVec.toNat heq
    rw [BitVec.toNat_ofNat] at hnat
    change b % 2 ^ 52 = 0 at hnat
    omega
  rw [word, unpack_packComponents, hexponent, if_pos (by decide), if_neg hfraction]

theorem pack_canonical (negative : Bool) {m d : Nat} (hfits : Fits m d) :
    pack Format.binary64 (canonical negative m d) =
      word negative (min infinite (d * 2 ^ 52 + m)) := by
  have hm := hfits.lt
  have hinf : infinite = 2047 * 2 ^ 52 := rfl
  by_cases hzero : m = 0
  · obtain rfl : d = 0 := hfits.normal.resolve_right (by omega)
    subst hzero
    cases negative <;> rfl
  have hbias : ((d : Int) - 1074 + Format.binary64.exponentBias +
      Format.binary64.mantissaBitsWithoutImplicit).toNat = d + 1 := by
    change ((d : Int) - 1074 + 1023 + 52).toNat = d + 1
    omega
  rw [canonical, dif_neg hzero]
  unfold pack
  simp only [hbias]
  change (if 2 ^ 11 ≤ d + 1 + 1 then _ else if m.log2 + 1 = 53 then _ else _) = _
  by_cases hlarge : 2 ^ 11 ≤ d + 1 + 1
  · have hnormal := hfits.normal
    rw [if_pos hlarge, Nat.min_eq_left (by omega)]
    cases negative <;> rfl
  rw [if_neg hlarge, Nat.min_eq_right (by omega)]
  by_cases hsmall : m < 2 ^ 52
  · obtain rfl : d = 0 := hfits.normal.resolve_right (by omega)
    have hlog : m.log2 < 52 := (Nat.log2_lt hzero).mpr hsmall
    have hexponent : (0 * 2 ^ 52 + m) / 2 ^ 52 = 0 := by omega
    rw [if_neg (by omega), word, hexponent, Nat.zero_mul, Nat.zero_add]
  · have hlog : m.log2 = 52 := (Nat.log2_eq_iff hzero).mpr ⟨by omega, hm⟩
    have hexponent : (d * 2 ^ 52 + m) / 2 ^ 52 = d + 1 := by omega
    have hfraction : BitVec.ofNat 52 (d * 2 ^ 52 + m) = BitVec.ofNat 52 m := by
      apply BitVec.eq_of_toNat_eq
      rw [BitVec.toNat_ofNat, BitVec.toNat_ofNat]
      omega
    rw [if_pos (by rw [hlog]), word, hexponent, hfraction]

theorem pack_infinity (negative : Bool) :
    pack Format.binary64 (.infinity (signOf negative)) = word negative infinite := by
  cases negative <;> rfl

end PocketCalculator.Proofs.FloatWords

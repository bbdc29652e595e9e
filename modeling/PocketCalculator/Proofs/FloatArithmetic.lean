import PocketCalculator.Proofs.FloatRounding

namespace PocketCalculator.Proofs.FloatArithmetic

open Float.Model (Format UnpackedFloat)
open Float.Model.UnpackedFloat (Sign pack unpack roundWithAccuracy accuracyOfFraction)
open PocketCalculator.Binary64
open PocketCalculator.Proofs.FloatRounding
open PocketCalculator.Proofs.FloatWords
open PocketCalculator.Proofs.NearestMagnitude

variable {x y : Float}

theorem magnitude_lt (x : Float) : magnitude x < 2 ^ 63 :=
  Nat.mod_lt _ (by decide)

theorem toNat_toBits (x : Float) :
    x.toBits.toNat = (if isNegative x then 2 ^ 63 else 0) + magnitude x := by
  have hlt : x.toBits.toNat < 2 ^ 64 := x.toBits.toNat_lt
  by_cases hsign : 2 ^ 63 ≤ x.toBits.toNat
  · have hneg : isNegative x = true := decide_eq_true hsign
    rw [if_pos hneg, magnitude]
    change x.toBits.toNat = 2 ^ 63 + x.toBits.toNat % 2 ^ 63
    omega
  · have hneg : isNegative x = false := decide_eq_false hsign
    rw [hneg, magnitude]
    change x.toBits.toNat = 0 + x.toBits.toNat % 2 ^ 63
    omega

theorem toBitVec_toBits (x : Float) :
    x.toBits.toBitVec = word (isNegative x) (magnitude x) := by
  apply BitVec.eq_of_toNat_eq
  rw [toNat_word _ (magnitude_lt x)]
  exact toNat_toBits x

theorem eq_of_toBitVec (h : x.toBits.toBitVec = y.toBits.toBitVec) : x = y := by
  obtain ⟨⟨xbits, xvalid⟩⟩ := x
  obtain ⟨⟨ybits, yvalid⟩⟩ := y
  obtain rfl : xbits = ybits := UInt64.eq_of_toBitVec_eq h
  rfl

theorem unpack_toModel (x : Float) :
    x.toModel.unpack = unpack Format.binary64 (word (isNegative x) (magnitude x)) :=
  congrArg (unpack Format.binary64) (toBitVec_toBits x)

theorem exists_canonical (h : magnitude x < infinite) :
    ∃ m d, Fits m d ∧ magnitude x = d * 2 ^ 52 + m ∧ units x = m * 2 ^ d ∧
      x.toModel.unpack = canonical (isNegative x) m d := by
  obtain ⟨m, d, hfits, heq⟩ := exists_fits (magnitude x)
  refine ⟨m, d, hfits, heq, ?_, ?_⟩
  · rw [units, heq, hfits.unitsOf_eq]
  · rw [unpack_toModel, heq, unpack_word _ hfits (heq ▸ h)]

theorem pack_unpack_word (negative : Bool) {b : Nat} (hb : b ≤ infinite) :
    pack Format.binary64 (unpack Format.binary64 (word negative b)) = word negative b := by
  rcases hb.lt_or_eq with hlt | rfl
  · obtain ⟨m, d, hfits, rfl⟩ := exists_fits b
    rw [unpack_word negative hfits hlt, pack_canonical negative hfits, Nat.min_eq_right hb]
  · rw [unpack_word_infinite, pack_infinity]

theorem toBitVec_ofMagnitude (negative : Bool) {b : Nat} (hb : b ≤ infinite) :
    (ofMagnitude negative b).toBits.toBitVec = word negative b := by
  have hlt : b < 2 ^ 63 := hb.trans_lt (by decide)
  have hword : (UInt64.ofNat (if negative then Nat.pow 2 63 + b else b)).toBitVec =
      word negative b := by
    apply BitVec.eq_of_toNat_eq
    rw [toNat_word negative hlt]
    cases negative <;> simp <;> omega
  rw [← pack_unpack_word negative hb, ← hword]
  rfl

theorem toNat_ofMagnitude (negative : Bool) {b : Nat} (hb : b ≤ infinite) :
    (ofMagnitude negative b).toBits.toNat = (if negative then 2 ^ 63 else 0) + b :=
  (congrArg BitVec.toNat (toBitVec_ofMagnitude negative hb)).trans
    (toNat_word negative (hb.trans_lt (by decide)))

theorem magnitude_ofMagnitude (negative : Bool) {b : Nat} (hb : b ≤ infinite) :
    magnitude (ofMagnitude negative b) = b := by
  have hlt : b < 2 ^ 63 := hb.trans_lt (by decide)
  rw [magnitude, toNat_ofMagnitude negative hb]
  change _ % 2 ^ 63 = b
  split <;> omega

theorem magnitude_ofMagnitude_lt (negative : Bool) {b : Nat} (hb : b < infinite) :
    magnitude (ofMagnitude negative b) < infinite := by
  rwa [magnitude_ofMagnitude _ hb.le]

theorem isNegative_ofMagnitude (negative : Bool) {b : Nat} (hb : b ≤ infinite) :
    isNegative (ofMagnitude negative b) = negative := by
  have hlt : b < 2 ^ 63 := hb.trans_lt (by decide)
  rw [isNegative, toNat_ofMagnitude negative hb]
  cases negative
  · exact decide_eq_false (by simpa using hlt)
  · exact decide_eq_true (Nat.le_add_right ..)

theorem units_ofMagnitude (negative : Bool) {b : Nat} (hb : b ≤ infinite) :
    units (ofMagnitude negative b) = unitsOf b :=
  congrArg unitsOf (magnitude_ofMagnitude negative hb)

theorem ofMagnitude_magnitude (h : magnitude x ≤ infinite) :
    ofMagnitude (isNegative x) (magnitude x) = x :=
  eq_of_toBitVec ((toBitVec_ofMagnitude _ h).trans (toBitVec_toBits x).symm)

theorem ofModel_pack_eq {u : UnpackedFloat} {negative : Bool} {b : Nat}
    (hpack : pack Format.binary64 u = word negative b) (hb : b ≤ infinite) :
    Float.ofModel (Float.Model.pack u) = ofMagnitude negative b := by
  apply eq_of_toBitVec
  rw [toBitVec_ofMagnitude negative hb]
  exact hpack

theorem isFinite_iff : x.isFinite = true ↔ magnitude x < infinite := by
  change x.toModel.unpack.isFinite = true ↔ _
  rcases Nat.lt_trichotomy (magnitude x) infinite with hlt | heq | hgt
  · obtain ⟨m, d, -, -, -, hunpack⟩ := exists_canonical hlt
    rw [hunpack, iff_true_right hlt]
    obtain ⟨-, h⟩ | ⟨hpos, h⟩ := canonical_cases (isNegative x) m d <;> rw [h] <;> rfl
  · rw [unpack_toModel, heq, unpack_word_infinite, iff_false_right (Nat.lt_irrefl _)]
    exact Bool.false_ne_true
  · rw [unpack_toModel, unpack_word_nan _ hgt (magnitude_lt x), iff_false_right hgt.not_gt]
    exact Bool.false_ne_true

theorem isNaN_iff : x.isNaN = true ↔ infinite < magnitude x := by
  change x.toModel.unpack.isNaN = true ↔ _
  rcases Nat.lt_trichotomy (magnitude x) infinite with hlt | heq | hgt
  · obtain ⟨m, d, -, -, -, hunpack⟩ := exists_canonical hlt
    rw [hunpack, iff_false_right hlt.not_gt]
    obtain ⟨-, h⟩ | ⟨hpos, h⟩ := canonical_cases (isNegative x) m d <;> rw [h] <;>
      exact Bool.false_ne_true
  · rw [unpack_toModel, heq, unpack_word_infinite, iff_false_right (Nat.lt_irrefl _)]
    exact Bool.false_ne_true
  · rw [unpack_toModel, unpack_word_nan _ hgt (magnitude_lt x), iff_true_right hgt]
    rfl

theorem isInf_iff : x.isInf = true ↔ magnitude x = infinite := by
  change x.toModel.unpack.isInf = true ↔ _
  rcases Nat.lt_trichotomy (magnitude x) infinite with hlt | heq | hgt
  · obtain ⟨m, d, -, -, -, hunpack⟩ := exists_canonical hlt
    rw [hunpack, iff_false_right hlt.ne]
    obtain ⟨-, h⟩ | ⟨hpos, h⟩ := canonical_cases (isNegative x) m d <;> rw [h] <;>
      exact Bool.false_ne_true
  · rw [unpack_toModel, heq, unpack_word_infinite, iff_true_right rfl]
    rfl
  · rw [unpack_toModel, unpack_word_nan _ hgt (magnitude_lt x), iff_false_right hgt.ne']
    exact Bool.false_ne_true

theorem signOf_mul (s t : Bool) : signOf s * signOf t = signOf (s ^^ t) := by
  cases s <;> cases t <;> rfl

theorem signOf_div (s t : Bool) : signOf s / signOf t = signOf (s ^^ t) := by
  cases s <;> cases t <;> rfl

theorem neg_signOf (s : Bool) : -signOf s = signOf !s := by
  cases s <;> rfl

theorem pack_zero (negative : Bool) :
    pack Format.binary64 (.zero (signOf negative)) = word negative 0 := by
  cases negative <;> rfl

theorem mul_eq (hx : magnitude x < infinite) (hy : magnitude y < infinite) :
    x * y = ofMagnitude (isNegative x ^^ isNegative y) (nearest (units x * units y) one) := by
  obtain ⟨m, d, hfits, -, hunits, hunpack⟩ := exists_canonical hx
  obtain ⟨n, e, hfits', -, hunits', hunpack'⟩ := exists_canonical hy
  refine ofModel_pack_eq (u := UnpackedFloat.mul Format.binary64 x.toModel.unpack y.toModel.unpack)
    ?_ (nearest_le_infinite ..)
  rw [hunpack, hunpack', hunits, hunits']
  obtain ⟨rfl, h⟩ | ⟨hm, h⟩ := canonical_cases (isNegative x) m d
  · rw [h, Nat.zero_mul, Nat.zero_mul, nearest_zero pos_one, ← pack_zero, ← signOf_mul]
    obtain ⟨-, h'⟩ | ⟨hn, h'⟩ := canonical_cases (isNegative y) n e <;> rw [h'] <;> rfl
  obtain ⟨rfl, h'⟩ | ⟨hn, h'⟩ := canonical_cases (isNegative y) n e
  · rw [h, h', Nat.zero_mul, Nat.mul_zero, nearest_zero pos_one, ← pack_zero, ← signOf_mul]
    rfl
  rw [h, h']
  have hwide : (d : Int) - 1074 + (e - 1074) ≤ -1074 ∨ 2 ^ 52 ≤ m * n / 1 := by
    rw [Nat.div_one]
    rcases hfits.normal with rfl | hm'
    · rcases hfits'.normal with rfl | hn'
      · left
        omega
      · right
        exact hn'.trans (Nat.le_mul_of_pos_left n hm)
    · right
      exact hm'.trans (Nat.le_mul_of_pos_right m hn)
  obtain ⟨places, hplaces, hone⟩ := exists_one_eq
  have hround := pack_roundWithAccuracy (isNegative x ^^ isNegative y) (a := d + e) (b := places)
    Nat.one_pos (by omega) hwide
  have hscale : m * n * 2 ^ (d + e) = m * 2 ^ d * (n * 2 ^ e) := by ring
  rw [hscale, Nat.one_mul, ← hone, Nat.div_one, Nat.mod_one] at hround
  rw [← hround, ← signOf_mul]
  rfl

/-- Dividing first scales the dividend up, until the quotient has enough bits. -/
theorem exists_divCore {m n : Nat} (hm : m ≠ 0) (hn : 0 < n) (d e : Nat) :
    ∃ places : Nat, ((d : Int) - e - places ≤ -1074 ∨ 2 ^ 52 ≤ m * 2 ^ places / n) ∧
      Float.Model.UnpackedFloat.divCore Format.binary64 m (d - 1074) n (e - 1074) =
        (m * 2 ^ places / n, (d : Int) - e - places,
          accuracyOfFraction (m * 2 ^ places % n) n) := by
  have htarget : Format.binary64.targetExponent (Float.Model.totalExponent m (d - 1074) -
      Float.Model.totalExponent n (e - 1074)) =
        max ((m.log2 : Int) + 1 + (d - 1074) - (n.log2 + 1 + (e - 1074)) - 53) (-1074) := rfl
  obtain ⟨places, hplaces⟩ : ∃ places : Nat, ((d : Int) - 1074 - (e - 1074)) -
      min ((d : Int) - 1074 - (e - 1074)) (max ((m.log2 : Int) + 1 + (d - 1074) -
        (n.log2 + 1 + (e - 1074)) - 53) (-1074)) = places :=
    ⟨_, (Int.toNat_of_nonneg (by omega)).symm⟩
  refine ⟨places, ?_, ?_⟩
  · by_cases hsmall : (d : Int) - e - places ≤ -1074
    · exact Or.inl hsmall
    right
    have hbits : 53 + n.log2 ≤ m.log2 + places := by omega
    refine (Nat.le_div_iff_mul_le hn).mpr ?_
    calc 2 ^ 52 * n ≤ 2 ^ 52 * 2 ^ (n.log2 + 1) := Nat.mul_le_mul_left _ Nat.lt_log2_self.le
      _ = 2 ^ (53 + n.log2) := by rw [← Nat.pow_add]; congr 1; omega
      _ ≤ 2 ^ (m.log2 + places) := Nat.pow_le_pow_right Nat.two_pos hbits
      _ = 2 ^ m.log2 * 2 ^ places := Nat.pow_add ..
      _ ≤ m * 2 ^ places := Nat.mul_le_mul_right _ (Nat.log2_self_le hm)
  · have hshift : ((d : Int) - 1074 - (e - 1074) - min ((d : Int) - 1074 - (e - 1074))
        (max ((m.log2 : Int) + 1 + (d - 1074) - (n.log2 + 1 + (e - 1074)) - 53) (-1074))).toNat =
          places := by rw [hplaces]; rfl
    simp only [Float.Model.UnpackedFloat.divCore, htarget, hshift, Nat.shiftLeft_eq]
    congr 2
    omega

theorem div_eq (hx : magnitude x < infinite) (hy : magnitude y < infinite) (hne : units y ≠ 0) :
    x / y = ofMagnitude (isNegative x ^^ isNegative y) (nearest (units x * one) (units y)) := by
  obtain ⟨m, d, hfits, -, hunits, hunpack⟩ := exists_canonical hx
  obtain ⟨n, e, hfits', -, hunits', hunpack'⟩ := exists_canonical hy
  have hypos : 0 < units y := Nat.pos_of_ne_zero hne
  refine ofModel_pack_eq (u := UnpackedFloat.div Format.binary64 x.toModel.unpack y.toModel.unpack)
    ?_ (nearest_le_infinite ..)
  have hn : n ≠ 0 := by
    rintro rfl
    exact hne (by rw [hunits', Nat.zero_mul])
  rw [hunpack, hunpack', hunits]
  obtain ⟨hzero, -⟩ | ⟨hnpos, h'⟩ := canonical_cases (isNegative y) n e
  · exact absurd hzero hn
  obtain ⟨rfl, h⟩ | ⟨hm, h⟩ := canonical_cases (isNegative x) m d
  · rw [h, h', Nat.zero_mul, Nat.zero_mul, nearest_zero hypos, ← pack_zero, ← signOf_div]
    rfl
  rw [h, h']
  obtain ⟨shift, hwide, hcore⟩ := exists_divCore hm.ne' hnpos d e
  obtain ⟨places, hplaces, hone⟩ := exists_one_eq
  have hround := pack_roundWithAccuracy (isNegative x ^^ isNegative y) (a := d + places)
    (b := e + shift) hnpos (by omega) hwide
  have hscale : nearest (m * 2 ^ shift * 2 ^ (d + places)) (n * 2 ^ (e + shift)) =
      nearest (m * 2 ^ d * one) (units y) := by
    refine nearest_congr (Nat.mul_pos hnpos (Nat.two_pow_pos _)) hypos ?_
    rw [hunits', hone]
    ring
  have hdiv : UnpackedFloat.div Format.binary64
      (.finite (signOf (isNegative x)) m (d - 1074) hm)
      (.finite (signOf (isNegative y)) n (e - 1074) hnpos) =
        (fun quotient => roundWithAccuracy Format.binary64
          (signOf (isNegative x) / signOf (isNegative y)) quotient.1 quotient.2.1 quotient.2.2)
          (Float.Model.UnpackedFloat.divCore Format.binary64 m (d - 1074) n (e - 1074)) := rfl
  rw [← hscale, ← hround, ← signOf_div, hdiv, hcore]

theorem neg_eq (hx : magnitude x < infinite) :
    -x = ofMagnitude (!isNegative x) (magnitude x) := by
  obtain ⟨m, d, hfits, hmagnitude, -, hunpack⟩ := exists_canonical hx
  refine ofModel_pack_eq (u := x.toModel.unpack.neg) ?_ hx.le
  have hneg : x.toModel.unpack.neg = canonical (!isNegative x) m d := by
    rw [hunpack]
    obtain ⟨rfl, h⟩ | ⟨hpos, h⟩ := canonical_cases (isNegative x) m d
    · rw [h, canonical, dif_pos rfl, ← neg_signOf]
      rfl
    · rw [h, canonical, dif_neg hpos.ne', ← neg_signOf]
      rfl
  rw [hneg, pack_canonical _ hfits, ← hmagnitude, Nat.min_eq_right hx.le]

theorem abs_eq (hx : magnitude x < infinite) : x.abs = ofMagnitude false (magnitude x) := by
  obtain ⟨m, d, hfits, hmagnitude, -, hunpack⟩ := exists_canonical hx
  refine ofModel_pack_eq (u := x.toModel.unpack.abs) ?_ hx.le
  have habs : x.toModel.unpack.abs = canonical false m d := by
    rw [hunpack]
    obtain ⟨rfl, h⟩ | ⟨hpos, h⟩ := canonical_cases (isNegative x) m d
    · rw [h, canonical, dif_pos rfl]
      rfl
    · rw [h, canonical, dif_neg hpos.ne']
      rfl
  rw [habs, pack_canonical _ hfits, ← hmagnitude, Nat.min_eq_right hx.le]

theorem beq_zero_iff (hx : magnitude x < infinite) : (x == 0) = true ↔ magnitude x = 0 := by
  obtain ⟨m, d, hfits, hmagnitude, -, hunpack⟩ := exists_canonical hx
  have hnormal := hfits.normal
  change (x.toModel.unpack.compare (0 : Float).toModel.unpack == some .eq) = true ↔ _
  have hzero : (0 : Float).toModel.unpack = .zero .positive := rfl
  rw [hunpack, hzero, hmagnitude]
  obtain ⟨hm, h⟩ | ⟨hpos, h⟩ := canonical_cases (isNegative x) m d
  · rw [h, iff_true_right (by omega)]
    rfl
  · rw [h, iff_false_right (by omega)]
    cases isNegative x <;> exact Bool.false_ne_true

theorem canonical_le_iff {m n d e : Nat} (hfits : Fits m d) (hfits' : Fits n e) :
    (canonical false m d).le (canonical false n e) = true ↔
      d * 2 ^ 52 + m ≤ e * 2 ^ 52 + n := by
  have hm := hfits.lt
  have hn := hfits'.lt
  have hnormal := hfits.normal
  have hnormal' := hfits'.normal
  obtain ⟨hmzero, h⟩ | ⟨hmpos, h⟩ := canonical_cases false m d
  · obtain ⟨hnzero, h'⟩ | ⟨hnpos, h'⟩ := canonical_cases false n e
    · rw [h, h', iff_true_right (by omega)]
      rfl
    · rw [h, h', iff_true_right (by omega)]
      rfl
  · obtain ⟨hnzero, h'⟩ | ⟨hnpos, h'⟩ := canonical_cases false n e
    · rw [h, h', iff_false_right (by omega)]
      exact Bool.false_ne_true
    · rw [h, h']
      change ((compare ((d : Int) - 1074) (e - 1074)).then (compare m n)).isLE = true ↔ _
      simp only [Ordering.isLE_then_iff_or, Int.compare_eq_lt, Int.compare_eq_eq, Nat.isLE_compare]
      omega

theorem le_iff (hx : magnitude x < infinite) (hy : magnitude y < infinite)
    (hxpos : isNegative x = false) (hypos : isNegative y = false) :
    x ≤ y ↔ magnitude x ≤ magnitude y := by
  obtain ⟨m, d, hfits, hmagnitude, -, hunpack⟩ := exists_canonical hx
  obtain ⟨n, e, hfits', hmagnitude', -, hunpack'⟩ := exists_canonical hy
  change decide (x.toModel ≤ y.toModel) = true ↔ _
  rw [decide_eq_true_iff]
  change x.toModel.unpack.le y.toModel.unpack = true ↔ _
  rw [hunpack, hunpack', hmagnitude, hmagnitude', hxpos, hypos, canonical_le_iff hfits hfits']

end PocketCalculator.Proofs.FloatArithmetic

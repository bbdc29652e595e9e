import PocketCalculator.Proofs.ConversionText
import PocketCalculator.Proofs.DisplayedResult
import PocketCalculator.Proofs.ShortestDigits
import PocketCalculator.Proofs.WrittenNumbers

namespace PocketCalculator.Proofs.CanonicalNumerals

open PocketCalculator.Binary64
open PocketCalculator.Calculation
open PocketCalculator.Decimal
open PocketCalculator.Measure
open PocketCalculator.Proofs.ConversionText
open PocketCalculator.Proofs.DisplayedResult
open PocketCalculator.Proofs.FloatArithmetic
open PocketCalculator.Proofs.LexicalReading
open PocketCalculator.Proofs.NearestMagnitude
open PocketCalculator.Proofs.ResultRounding
open PocketCalculator.Proofs.ShortestDecimal
open PocketCalculator.Proofs.ShortestDigits
open PocketCalculator.Proofs.TypedExpression
open PocketCalculator.Proofs.WrittenNumbers

/-- A numeral without superfluous zeros at either end, and with a point only before more digits. -/
structure IsCanonical (numeral : Numeral) : Prop where
  digits : ∀ c ∈ numeral.whole ++ numeral.fraction, c.isDigit
  whole : numeral.whole ≠ []
  leading : numeral.whole.head? = some '0' → numeral.whole = ['0']
  point : numeral.point = true ↔ numeral.fraction ≠ []
  trailing : numeral.fraction.getLast? ≠ some '0'

def zero : Numeral := ⟨['0'], false, []⟩

/-- A text that is a canonical numeral, perhaps after a minus sign, which zero has not. -/
structure Shows (text : String) (negative : Bool) (numeral : Numeral) : Prop where
  canonical : IsCanonical numeral
  sign : negative = true → numeral ≠ zero
  text : text.toList = signed negative numeral.text

/-- The number a numeral stands for, in units of its last place but for a number of places. -/
def inPlaces (places : Nat) (numeral : Numeral) : Nat :=
  Nat.ofDigitChars 10 (numeral.whole ++ numeral.fraction) 0 *
    10 ^ (places - numeral.fraction.length)

theorem isCanonical_zero : IsCanonical zero := by
  constructor <;> simp [zero]

theorem getLast?_toDigits (n : Nat) :
    (Nat.toDigits 10 n).getLast? = some (Nat.digitChar (n % 10)) := by
  by_cases h : n < 10
  · rw [Nat.toDigits_of_lt_base h, Nat.mod_eq_of_lt h]
    rfl
  · rw [Nat.toDigits_of_base_le (by decide) (by omega), List.getLast?_concat]

theorem getLast?_padded (n places : Nat) :
    (padded n places).getLast? = some (Nat.digitChar (n % 10)) := by
  rw [padded, List.getLast?_append, getLast?_toDigits]
  rfl

theorem digitChar_ne_zero {n : Nat} (h : n % 10 ≠ 0) : Nat.digitChar (n % 10) ≠ '0' := by
  have hall : ∀ d < 10, d ≠ 0 → Nat.digitChar d ≠ '0' := by decide
  exact hall _ (Nat.mod_lt n (by decide)) h

theorem leading_toDigits {n : Nat} (h : (Nat.toDigits 10 n).head? = some '0') :
    Nat.toDigits 10 n = ['0'] :=
  (head_toDigits n).resolve_right (not_not_intro h)

theorem eq_zero_of_toDigits {n : Nat} (h : Nat.toDigits 10 n = ['0']) : n = 0 := by
  rw [← Nat.ofDigitChars_ten_toDigits (n := n), h]
  rfl

theorem isCanonical_numeralOf {d : Scaled} (h : d.exponent < 0 → d.digits % 10 ≠ 0) :
    IsCanonical (numeralOf d) := by
  have hliteral := isLiteral_numeralOf d
  have hdigits : ∀ c ∈ (numeralOf d).whole ++ (numeralOf d).fraction, c.isDigit := fun c hc =>
    (List.mem_append.mp hc).elim (hliteral.whole c) (hliteral.fraction c)
  unfold numeralOf at hdigits ⊢
  split
  · rename_i hneg
    rw [if_pos hneg] at hdigits
    refine ⟨hdigits, Nat.toDigits_ne_nil, leading_toDigits, by simp [padded], ?_⟩
    have hmod : d.digits % 10 ^ d.exponent.natAbs % 10 = d.digits % 10 :=
      Nat.mod_mod_of_dvd _ (Dvd.dvd.pow (Nat.dvd_refl 10) (by omega))
    rw [getLast?_padded, hmod]
    simpa using digitChar_ne_zero (h hneg)
  · rename_i hneg
    rw [if_neg hneg] at hdigits
    exact ⟨hdigits, Nat.toDigits_ne_nil, leading_toDigits, by simp, by simp⟩

theorem numeralOf_ne_zero {d : Scaled} (h : d.digits ≠ 0) : numeralOf d ≠ zero := by
  unfold numeralOf zero
  split
  · simp
  · intro heq
    have hzero := eq_zero_of_toDigits (congrArg Numeral.whole heq)
    have hpos : 0 < 10 ^ d.exponent.toNat := Nat.pow_pos (by decide)
    exact h ((Nat.mul_eq_zero.mp hzero).resolve_right hpos.ne')

theorem isCanonical_shortest {b : Nat} (hb : 0 < b) (hfinite : b < infinite) :
    IsCanonical (numeralOf (shortest b)) ∧ numeralOf (shortest b) ≠ zero := by
  have hmod := shortest_digits_mod_ten hb hfinite
  exact ⟨isCanonical_numeralOf fun _ => hmod, numeralOf_ne_zero fun h => hmod (by rw [h])⟩

theorem exists_shows_formatResult {x : Float} (hx : magnitude x < infinite) :
    ∃ negative numeral, Shows (formatResult x) negative numeral ∧
      numeral.toFloat false = (roundDecimals x resultDecimals).abs := by
  have hrounded := rounded_lt_infinite hx
  have habs : (roundDecimals x resultDecimals).abs =
      ofMagnitude false (rounded (magnitude x)) := by
    rw [roundDecimals_eq hx, abs_eq (magnitude_ofMagnitude_lt _ hrounded),
      magnitude_ofMagnitude _ hrounded.le]
  rw [formatResult_eq hx, habs]
  by_cases hzero : rounded (magnitude x) = 0
  · refine ⟨false, zero, ⟨isCanonical_zero, nofun, ?_⟩, ?_⟩
    · rw [if_pos hzero]
      rfl
    · rw [hzero]
      decide +kernel
  · obtain ⟨hcanonical, hne⟩ := isCanonical_shortest (Nat.pos_of_ne_zero hzero) hrounded
    refine ⟨isNegative x, numeralOf (shortest (rounded (magnitude x))),
      ⟨hcanonical, fun _ => hne, ?_⟩, toFloat_shortest false hrounded⟩
    rw [if_neg hzero, String.toList_ofList, text_numeralOf]

theorem trimZeros_append_replicate (text : List Char) (zeros : Nat) :
    trimZeros (text ++ List.replicate zeros '0') = trimZeros text := by
  induction zeros with
  | zero => simp
  | succ zeros ih => rw [List.replicate_succ', ← List.append_assoc, trimZeros_append_zero, ih]

theorem exists_append_replicate (digits : List Char) :
    ∃ kept zeros, digits = kept ++ List.replicate zeros '0' ∧ kept.getLast? ≠ some '0' := by
  induction digits using List.reverseRecOn with
  | nil => exact ⟨[], 0, rfl, nofun⟩
  | append_singleton digits c ih =>
      by_cases hzero : c = '0'
      · obtain ⟨kept, zeros, rfl, hlast⟩ := ih
        exact ⟨kept, zeros + 1, by rw [hzero, List.replicate_succ', List.append_assoc], hlast⟩
      · exact ⟨digits ++ [c], 0, by simp, by simpa using hzero⟩

theorem ne_point {c : Char} (h : c.isDigit) : c ≠ '.' := by
  rintro rfl
  exact absurd h (by decide)

/-- Trimming takes away the zeros behind a point, and the point before nothing else. -/
theorem trimZeros_signed (negative : Bool) {whole kept : List Char} (zeros : Nat)
    (h : IsCanonical ⟨whole, !kept.isEmpty, kept⟩) :
    trimZeros (signed negative (whole ++ '.' :: (kept ++ List.replicate zeros '0'))) =
      signed negative (Numeral.text ⟨whole, !kept.isEmpty, kept⟩) := by
  obtain ⟨hdigits, hwhole, -, -, hlast⟩ := h
  have hshape : signed negative (whole ++ '.' :: (kept ++ List.replicate zeros '0')) =
      signed negative (whole ++ '.' :: kept) ++ List.replicate zeros '0' := by
    rw [← signed_append, List.append_assoc, List.cons_append]
  rw [hshape, trimZeros_append_replicate]
  rcases List.eq_nil_or_concat kept with rfl | ⟨start, c, hkept⟩
  · obtain ⟨start, c, hstart⟩ := (List.eq_nil_or_concat whole).resolve_left hwhole
    rw [List.concat_eq_append] at hstart
    subst hstart
    rw [signed_append, signed_append,
      trimZeros_append_point (ne_point (hdigits c (by simp)))]
    simp [Numeral.text, signed_append]
  · rw [List.concat_eq_append] at hkept
    subst hkept
    have htext : signed negative (whole ++ '.' :: (start ++ [c])) =
        signed negative (whole ++ '.' :: start) ++ [c] := by
      rw [← signed_append, List.append_assoc, List.cons_append]
    rw [htext, trimZeros_append_of_ne (by simpa using hlast)
      (ne_point (hdigits c (by simp))), ← htext]
    simp [Numeral.text]

theorem exists_trimZeros_pointed (negative : Bool) (n : Nat) {places : Nat} (h : places ≠ 0) :
    ∃ numeral, IsCanonical numeral ∧
      trimZeros (signed negative (pointed n places)) = signed negative numeral.text ∧
      numeral.fraction.length ≤ places ∧ inPlaces places numeral = n := by
  have hlow : n % 10 ^ places < 10 ^ places := Nat.mod_lt _ (Nat.pow_pos (by decide))
  have hlength := length_padded h hlow
  have hvalue := ofDigitChars_padded (n % 10 ^ places) places (n / 10 ^ places) h hlow
  obtain ⟨kept, zeros, hpadded, hlast⟩ := exists_append_replicate (padded (n % 10 ^ places) places)
  have hdigits : ∀ c ∈ Nat.toDigits 10 (n / 10 ^ places) ++ kept, c.isDigit := fun c hc =>
    @isDigit_of_mem_pointed n places _ (by
      rw [hpadded, ← List.append_assoc]
      exact List.mem_append_left _ hc)
  have hcanonical : IsCanonical ⟨Nat.toDigits 10 (n / 10 ^ places), !kept.isEmpty, kept⟩ :=
    ⟨hdigits, Nat.toDigits_ne_nil, leading_toDigits, by simp, hlast⟩
  rw [hpadded, List.length_append, List.length_replicate] at hlength
  refine ⟨_, hcanonical, ?_, ?_, ?_⟩
  · rw [pointed_of_ne h, hpadded]
    exact trimZeros_signed negative zeros hcanonical
  · change kept.length ≤ places
    omega
  · rw [hpadded, Nat.ofDigitChars_append, Nat.ofDigitChars_replicate_zero,
      Nat.div_add_mod] at hvalue
    have hzeros : places - kept.length = zeros := by omega
    rw [inPlaces, Nat.ofDigitChars_append, Nat.ofDigitChars_ten_toDigits, hzeros, Nat.mul_comm]
    exact hvalue

theorem eq_zero_of_text {numeral : Numeral} (h : IsCanonical numeral)
    (htext : numeral.text = ['0']) : numeral = zero := by
  obtain ⟨whole, point, fraction⟩ := numeral
  obtain ⟨c, rest, rfl⟩ := List.exists_cons_of_ne_nil h.whole
  simp only [Numeral.text, List.cons_append, List.cons.injEq, List.append_eq_nil_iff] at htext
  obtain ⟨rfl, rfl, hpoint, rfl⟩ := htext
  cases point
  · rfl
  · cases hpoint

theorem minus_not_mem_text {numeral : Numeral} (h : IsCanonical numeral) : '-' ∉ numeral.text := by
  have hdigits : '-' ∉ numeral.whole ++ numeral.fraction := fun hmem =>
    absurd (h.digits '-' hmem) (by decide)
  simp only [List.mem_append, not_or] at hdigits
  cases hpoint : numeral.point <;> simp [Numeral.text, hpoint, hdigits]

theorem exists_shows {negative : Bool} {numeral : Numeral} (h : IsCanonical numeral) :
    ∃ sign, Shows
      (if signed negative numeral.text = ['-', '0'] then "0"
        else String.ofList (signed negative numeral.text)) sign numeral := by
  by_cases hzero : signed negative numeral.text = ['-', '0']
  · cases negative with
    | false =>
        have hmem : '-' ∈ numeral.text := by
          rw [show numeral.text = ['-', '0'] from hzero]
          exact List.mem_cons_self
        exact absurd hmem (minus_not_mem_text h)
    | true =>
        obtain rfl := eq_zero_of_text h (List.cons.inj hzero).2
        exact ⟨false, h, nofun, by rw [if_pos hzero]; rfl⟩
  · refine ⟨negative, h, ?_, by rw [if_neg hzero, String.toList_ofList]⟩
    rintro rfl rfl
    exact hzero rfl

theorem zero_le_exponent {x : Float} (hx : magnitude x < infinite) (hne : magnitude x ≠ 0)
    (hwhole : one ∣ units x) : 0 ≤ (shortest (magnitude x)).exponent := by
  obtain ⟨n, hn⟩ := hwhole
  refine exponent_le_shortest (n := n) (Nat.pos_of_ne_zero hne) hx ?_
  have hexact := isNearest_unitsOf (magnitude x) Nat.one_pos
  rw [← units, hn, Nat.mul_one, Nat.mul_comm] at hexact
  rwa [ReadsBack, show step 0 = one from Nat.one_mul one]

theorem exists_plain {x : Float} (hx : magnitude x < infinite) (hwhole : one ∣ units x) :
    ∃ numeral, IsCanonical numeral ∧ plain x = signed (isNegative x) numeral.text ∧
      numeral.fraction = [] ∧ numeral.toFloat false = x.abs := by
  rw [abs_eq hx]
  by_cases hzero : magnitude x = 0
  · refine ⟨zero, isCanonical_zero, ?_, rfl, ?_⟩
    · rw [plain, if_neg (mt isNaN_iff.mp (Nat.not_lt.mpr hx.le)), if_neg (mt isInf_iff.mp hx.ne),
        if_pos (show units x = 0 from unitsOf_eq_zero_iff.mpr hzero)]
      rfl
    · rw [hzero]
      decide +kernel
  · refine ⟨numeralOf (shortest (magnitude x)),
      (isCanonical_shortest (Nat.pos_of_ne_zero hzero) hx).1, ?_, ?_, toFloat_shortest false hx⟩
    · rw [plain_eq hx hzero, text_numeralOf]
    · rw [numeralOf, if_neg (Int.not_lt.mpr (zero_le_exponent hx hzero hwhole))]

theorem exists_shows_formatConversion {x : Float} (hx : magnitude x < infinite) :
    ∃ negative numeral, Shows (formatConversion x) negative numeral ∧
      numeral.fraction.length ≤ conversionDecimals.toNat ∧
      (isIntegral x = true → numeral.fraction = [] ∧ numeral.toFloat false = x.abs) ∧
      (isIntegral x = false →
        inPlaces conversionDecimals.toNat numeral =
          quotientHalfEven (units (roundDecimals x conversionDecimals) *
            10 ^ conversionDecimals.toNat) one) := by
  have hnan : ¬ x.isNaN = true := mt isNaN_iff.mp (Nat.not_lt.mpr hx.le)
  have hinf : ¬ x.isInf = true := mt isInf_iff.mp hx.ne
  rw [formatConversion, if_neg hnan, if_neg hinf]
  dsimp only
  by_cases hwhole : isIntegral x = true
  · rw [if_pos hwhole]
    rw [isIntegral, Bool.and_eq_true, beq_iff_eq] at hwhole
    obtain ⟨numeral, hcanonical, htext, hfraction, hvalue⟩ :=
      exists_plain hx (Nat.dvd_of_mod_eq_zero hwhole.2)
    obtain ⟨sign, hshows⟩ := exists_shows hcanonical
    rw [← htext] at hshows
    exact ⟨sign, numeral, hshows, by simp [hfraction], fun _ => ⟨hfraction, hvalue⟩,
      fun hnot => absurd hnot (by simp [isIntegral, hwhole])⟩
  · rw [if_neg hwhole, formatFraction, fixed]
    have hplaces : conversionDecimals.toNat ≠ 0 := by decide
    obtain ⟨numeral, hcanonical, htext, hlength, hvalue⟩ := exists_trimZeros_pointed
      (isNegative (roundDecimals x conversionDecimals))
      (quotientHalfEven (units (roundDecimals x conversionDecimals) *
        10 ^ conversionDecimals.toNat) one) hplaces
    obtain ⟨sign, hshows⟩ := exists_shows hcanonical
    rw [← htext] at hshows
    exact ⟨sign, numeral, hshows, hlength, fun h => absurd h hwhole, fun _ => hvalue⟩

theorem exists_number_of_evaluate {engine : Engine} {text result : String}
    (h : engine.evaluate text = .ok result) :
    ∃ negative value, ∀ reader : Engine,
      tokenize reader.scientific result =
          .ok (if negative then [.minus .ascii, .number value] else [.number value]) ∧
        reader.compile result = .ok (treeOf negative value) := by
  obtain ⟨value, hraw, rfl⟩ := evaluate_eq_ok_iff.mp h
  obtain ⟨numeral, hliteral, -, -, htext⟩ := exists_numeral (lt_infinite_of_evaluateRaw hraw)
  rw [htext]
  refine ⟨showsSign value, numeral.toFloat false, fun reader => ⟨?_, ?_⟩⟩
  · refine tokenize_eq_ok_iff.mpr ⟨pieces (showsSign value) numeral, ?_, ?_⟩
    · rw [String.toList_ofList]
      exact splits_pieces _ _ hliteral
    · cases showsSign value <;> rfl
  · exact compile_signed reader _ hliteral

/-- What is displayed of a finite float is a canonical numeral. A result shows the rounded float, a
conversion shows a whole float with all its digits and any other one rounded to four places, with
only the zeros behind the point left out. Floats that are not finite have names. Every result of an
evaluation is a number or a negated number to any engine. -/
theorem displayed_numbers_canonical :
    (∀ x : Float, x.isFinite →
      (∃ negative numeral, Shows (formatResult x) negative numeral ∧
        numeral.toFloat false = (roundDecimals x resultDecimals).abs) ∧
      ∃ negative numeral, Shows (formatConversion x) negative numeral ∧
        numeral.fraction.length ≤ conversionDecimals.toNat ∧
        (isIntegral x = true → numeral.fraction = [] ∧ numeral.toFloat false = x.abs) ∧
        (isIntegral x = false →
          inPlaces conversionDecimals.toNat numeral =
            quotientHalfEven (units (roundDecimals x conversionDecimals) *
              10 ^ conversionDecimals.toNat) one)) ∧
    (∀ x : Float, x.isNaN → formatConversion x = "NaN") ∧
    (∀ x : Float, x.isInf →
      formatConversion x = if isNegative x then "-Infinity" else "Infinity") ∧
    ∀ (engine : Engine) (text result : String), engine.evaluate text = .ok result →
      ∃ negative value, ∀ reader : Engine,
        tokenize reader.scientific result =
            .ok (if negative then [.minus .ascii, .number value] else [.number value]) ∧
          reader.compile result = .ok (treeOf negative value) := by
  refine ⟨fun x hx => ?_, fun x hnan => if_pos hnan, fun x hinf => ?_,
    fun engine text result h => exists_number_of_evaluate h⟩
  · have hfinite := isFinite_iff.mp hx
    exact ⟨exists_shows_formatResult hfinite, exists_shows_formatConversion hfinite⟩
  · have hnan : ¬ x.isNaN = true := by
      rw [isNaN_iff, isInf_iff.mp hinf]
      exact Nat.lt_irrefl _
    rw [formatConversion, if_neg hnan, if_pos hinf]

theorem displayed_numbers_canonical_hundred :
    (100.00001 : Float).isFinite = true ∧ isIntegral 100.00001 = false ∧
      formatConversion 100.00001 = "100" ∧
      ∃ negative numeral, Shows (formatConversion 100.00001) negative numeral ∧
        numeral.fraction.length ≤ conversionDecimals.toNat := by
  have hfinite : (100.00001 : Float).isFinite = true := by decide +kernel
  obtain ⟨-, negative, numeral, hshows, hlength, -⟩ :=
    displayed_numbers_canonical.1 100.00001 hfinite
  exact ⟨hfinite, by decide +kernel, by decide +kernel, negative, numeral, hshows, hlength⟩

end PocketCalculator.Proofs.CanonicalNumerals

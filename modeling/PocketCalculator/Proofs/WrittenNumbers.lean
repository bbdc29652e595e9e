import PocketCalculator.Decimal.Scientific
import PocketCalculator.Proofs.Characters
import PocketCalculator.Text.Hexadecimal

namespace PocketCalculator.Proofs.WrittenNumbers

open PocketCalculator.Decimal
open PocketCalculator.Proofs.Characters

theorem toList_repr (n : Nat) : ((n : Int).repr).toList = Nat.toDigits 10 n := by
  rw [show (n : Int).repr = n.repr from rfl, Nat.repr_eq_ofList_toDigits, String.toList_ofList]

theorem exists_toDigits (n : Nat) : ∃ d ds, Nat.toDigits 10 n = d :: ds ∧ d.isDigit := by
  obtain ⟨d, ds, hdigits⟩ := List.exists_cons_of_ne_nil (Nat.toDigits_ne_nil (b := 10) (n := n))
  exact ⟨d, ds, hdigits, isDigit_toDigits n d (by simp [hdigits])⟩

theorem head_toDigits (n : Nat) :
    Nat.toDigits 10 n = ['0'] ∨ (Nat.toDigits 10 n).head? ≠ some '0' := by
  induction n using Nat.strongRecOn with
  | ind n ih =>
    by_cases h : n < 10
    · rw [Nat.toDigits_of_lt_base h]
      by_cases hzero : Nat.digitChar n = '0'
      · exact .inl (by rw [hzero])
      · exact .inr (by simpa using hzero)
    · rw [Nat.toDigits_of_base_le (by decide) (by omega)]
      refine .inr ?_
      rcases ih (n / 10) (by omega) with hzero | hhead
      · have hn : n / 10 = 0 := by
          rw [← Nat.ofDigitChars_ten_toDigits (n := n / 10), hzero]
          rfl
        omega
      · cases hdigits : Nat.toDigits 10 (n / 10) with
        | nil => exact absurd hdigits Nat.toDigits_ne_nil
        | cons d ds => simpa [hdigits] using hhead

theorem leadingZero_toDigits (n : Nat) :
    (decide ((Nat.toDigits 10 n).head? = some '0') && decide (Nat.toDigits 10 n ≠ ['0'])) =
      false := by
  rcases head_toDigits n with hzero | hhead
  · simp [hzero]
  · simp [hhead]

theorem splitSign_of_digits {cs : List Char} (h : ∀ c ∈ cs, c.isDigit) :
    splitSign cs = (false, cs) := by
  match cs with
  | [] => rfl
  | c :: rest =>
    have hc := h c (by simp)
    have hminus : c ≠ '-' := ne_of_class hc rfl
    have hplus : c ≠ '+' := ne_of_class hc rfl
    simp [splitSign, hminus, hplus]

theorem ofText?_toDigits (n : Nat) :
    Scientific.ofText? (Nat.toDigits 10 n) =
      some ⟨false, ⟨Nat.toDigits 10 n, false, []⟩, none⟩ := by
  have hdigits := isDigit_toDigits n
  have htake : (Nat.toDigits 10 n).takeWhile Char.isDigit = Nat.toDigits 10 n :=
    List.takeWhile_eq_self_iff.mpr hdigits
  have hdrop : (Nat.toDigits 10 n).dropWhile Char.isDigit = [] :=
    List.dropWhile_eq_nil_iff.mpr hdigits
  simp [Scientific.ofText?, splitSign_of_digits hdigits, Numeral.scan, htake, hdrop,
    Numeral.isEmpty]

theorem isFinite_toDigits {n : Nat} (h : n < Nat.pow 10 20) :
    (Scientific.mk false ⟨Nat.toDigits 10 n, false, []⟩ none).isFinite := by
  have hlength := (Nat.length_toDigits_le_iff (b := 10) (by decide) (by decide)).mpr h
  have hdrop := ((Nat.toDigits 10 n).dropWhile_sublist (· == '0')).length_le
  simp only [Scientific.isFinite, List.append_nil, List.length_nil, -Nat.reducePow]
  have hplace : (((Nat.toDigits 10 n).dropWhile (· == '0')).length : Int) < 309 := by omega
  simp [hplace, -Nat.reducePow]

theorem baseValue?_append (base : Nat) (digits : List Char) (c : Char) :
    Text.baseValue? base (digits ++ [c]) =
      (Text.baseValue? base digits).bind fun value =>
        (Text.digitValue? base c).map (value * base + ·) := by
  rw [Text.baseValue?, Text.baseValue?, List.foldl_append, List.foldl_cons, List.foldl_nil]
  cases List.foldl _ (some 0) digits <;> cases Text.digitValue? base c <;> rfl

theorem baseValue?_toDigits {base : Nat} (written : Char → Char) (hbase : 1 < base)
    (hdigit : ∀ d < base, Text.digitValue? base (written (Nat.digitChar d)) = some d) (n : Nat) :
    Text.baseValue? base ((Nat.toDigits base n).map written) = some n := by
  induction n using Nat.strongRecOn with
  | ind n ih =>
    by_cases h : n < base
    · rw [Nat.toDigits_of_lt_base h]
      simp [Text.baseValue?, hdigit n h]
    · have hpositive : 0 < n := by omega
      rw [Nat.toDigits_of_base_le hbase (Nat.not_lt.mp h), List.map_append, List.map_singleton,
        baseValue?_append, ih (n / base) (Nat.div_lt_self hpositive hbase),
        hdigit _ (Nat.mod_lt n (by omega)), Option.bind_some, Option.map_some,
        Nat.mul_comm, Nat.div_add_mod]

theorem decimalValue?_toDigits (n : Nat) : Text.baseValue? 10 (Nat.toDigits 10 n) = some n := by
  simpa using baseValue?_toDigits id (by decide) (by decide) n

theorem hexValue?_toDigits (n : Nat) :
    Text.hexValue? ((Nat.toDigits 16 n).map Char.toUpper) = some n :=
  baseValue?_toDigits Char.toUpper (by decide) (by decide) n

theorem hexValue?_zeros (count : Nat) (digits : List Char) :
    Text.hexValue? (List.replicate count '0' ++ digits) = Text.hexValue? digits := by
  induction count with
  | zero => rfl
  | succ count ih =>
    rw [List.replicate_succ, List.cons_append]
    exact ih

theorem hexValue?_hexDigits (width n : Nat) :
    Text.hexValue? (Text.hexDigits width n) = some n := by
  rw [Text.hexDigits, hexValue?_zeros, hexValue?_toDigits]

theorem length_hexDigits {width n : Nat} (hwidth : 0 < width) (h : n < Nat.pow 16 width) :
    (Text.hexDigits width n).length = width := by
  have hlength := (Nat.length_toDigits_le_iff (b := 16) (by decide) hwidth).mpr h
  simp only [Text.hexDigits, List.length_append, List.length_replicate, List.length_map]
  omega

theorem isAlphanum_hexDigits {width n : Nat} :
    ∀ c ∈ Text.hexDigits width n, c.isAlphanum := by
  have hdigit : ∀ d < 16, (Nat.digitChar d).toUpper.isAlphanum := by decide
  have hdigits (n : Nat) : ∀ c ∈ Nat.toDigits 16 n, c.toUpper.isAlphanum := by
    induction n using Nat.strongRecOn with
    | ind n ih =>
      intro c hc
      by_cases h : n < 16
      · rw [Nat.toDigits_of_lt_base h, List.mem_singleton] at hc
        exact hc ▸ hdigit n h
      · rw [Nat.toDigits_of_base_le (by decide) (by omega), List.mem_append,
          List.mem_singleton] at hc
        rcases hc with hc | rfl
        · exact ih (n / 16) (by omega) c hc
        · exact hdigit _ (Nat.mod_lt n (by decide))
  intro c hc
  rcases List.mem_append.mp hc with hzero | hc
  · rw [List.eq_of_mem_replicate hzero]
    rfl
  · obtain ⟨d, hd, rfl⟩ := List.mem_map.mp hc
    exact hdigits n d hd

theorem charOfCode?_toNat (c : Char) : Text.charOfCode? c.toNat = some c := by
  have hvalid : c.toNat.isValidChar := c.valid
  simp [Text.charOfCode?, hvalid]

theorem codePoint?_hexDigits (width : Nat) (c : Char) :
    Text.codePoint? (Text.hexDigits width c.toNat) = some c := by
  rw [Text.codePoint?, hexValue?_hexDigits, Option.bind_some, charOfCode?_toNat]

end PocketCalculator.Proofs.WrittenNumbers

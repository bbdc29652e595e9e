import Mathlib.Data.List.Forall2
import PocketCalculator.Proofs.ContinuedResult

namespace PocketCalculator.Proofs.DigitGlyphs

open PocketCalculator.Locale
open PocketCalculator.Proofs.ContinuedResult (delocalizeChar_of_isDigit)

/-- A digit of a supported script other than the ASCII digits. -/
def IsNative (c : Char) : Prop :=
  c.isDigit = false ∧ ∃ language value, Language.digit? language value = some c

/-- The two characters are the same, or digits with one value. -/
def SameDigit (c d : Char) : Prop :=
  c = d ∨ ∃ language other value, Language.digit? language value = some c ∧
    Language.digit? other value = some d

/-- The text holds no digit other than ASCII digits. -/
def AsciiDigits (text : String) : Prop := ∀ c ∈ text.toList, ¬ IsNative c

theorem digit?_eq_some_iff {language : Language} {value : Nat} {c : Char} :
    language.digit? value = some c ↔ value < 10 ∧ Char.ofNat (language.zero.toNat + value) = c := by
  simp [Language.digit?]

theorem digitValue?_eq_some_iff {c : Char} {value : Nat} :
    digitValue? c = some value ↔ ∃ language, Language.digit? language value = some c := by
  constructor
  · intro h
    obtain ⟨language, -, hdigit⟩ := List.exists_of_findSome?_eq_some h
    simp only [Option.ite_none_right_eq_some, Bool.and_eq_true, decide_eq_true_eq,
      Option.some.injEq] at hdigit
    obtain ⟨⟨hlow, hhigh⟩, rfl⟩ := hdigit
    refine ⟨language, digit?_eq_some_iff.mpr ⟨by omega, ?_⟩⟩
    rw [Nat.add_sub_cancel' hlow, Char.ofNat_toNat]
  · rintro ⟨language, h⟩
    obtain ⟨hvalue, rfl⟩ := digit?_eq_some_iff.mp h
    have hall : ∀ value < 10, ∀ language ∈ Language.all,
        digitValue? (Char.ofNat (language.zero.toNat + value)) = some value := by
      decide
    exact hall value hvalue language (by cases language <;> decide)

theorem lt_of_digitValue? {c : Char} {value : Nat} (h : digitValue? c = some value) :
    value < 10 := by
  obtain ⟨language, hdigit⟩ := digitValue?_eq_some_iff.mp h
  exact (digit?_eq_some_iff.mp hdigit).1

theorem digitValue?_digitChar {value : Nat} (h : value < 10) :
    digitValue? (Nat.digitChar value) = some value := by
  have hall : ∀ value < 10, digitValue? (Nat.digitChar value) = some value := by
    decide
  exact hall value h

theorem delocalizeChar_of_digitValue? {c : Char} {value : Nat} (h : digitValue? c = some value) :
    delocalizeChar c = Nat.digitChar value := by
  rw [delocalizeChar, h]

theorem digitValue?_delocalizeChar (c : Char) : digitValue? (delocalizeChar c) = digitValue? c := by
  cases h : digitValue? c with
  | none => rw [delocalizeChar, h, h]
  | some value =>
      rw [delocalizeChar_of_digitValue? h, digitValue?_digitChar (lt_of_digitValue? h)]

theorem delocalizeChar_eq_iff {c d : Char} :
    delocalizeChar c = delocalizeChar d ↔ SameDigit c d := by
  constructor
  · intro h
    have hvalue : digitValue? c = digitValue? d := by
      rw [← digitValue?_delocalizeChar c, h, digitValue?_delocalizeChar d]
    cases hd : digitValue? d with
    | none =>
        rw [delocalizeChar, delocalizeChar, hvalue, hd] at h
        exact Or.inl h
    | some value =>
        obtain ⟨language, hlanguage⟩ := digitValue?_eq_some_iff.mp (hvalue.trans hd)
        obtain ⟨other, hother⟩ := digitValue?_eq_some_iff.mp hd
        exact Or.inr ⟨language, other, value, hlanguage, hother⟩
  · rintro (rfl | ⟨language, other, value, hc, hd⟩)
    · rfl
    · rw [delocalizeChar_of_digitValue? (digitValue?_eq_some_iff.mpr ⟨language, hc⟩),
        delocalizeChar_of_digitValue? (digitValue?_eq_some_iff.mpr ⟨other, hd⟩)]

theorem delocalize_eq_iff {text text' : String} :
    delocalize text = delocalize text' ↔ List.Forall₂ SameDigit text.toList text'.toList := by
  rw [delocalize, delocalize, String.ofList_inj, ← List.forall₂_eq_eq_eq,
    List.forall₂_map_left_iff, List.forall₂_map_right_iff]
  simp only [delocalizeChar_eq_iff]

theorem not_isNative_delocalizeChar (c : Char) : ¬ IsNative (delocalizeChar c) := by
  rintro ⟨hdigit, language, value, hglyph⟩
  have hvalue := digitValue?_eq_some_iff.mpr ⟨language, hglyph⟩
  rw [digitValue?_delocalizeChar] at hvalue
  rw [delocalizeChar_of_digitValue? hvalue, Nat.isDigit_digitChar, decide_eq_false_iff_not] at hdigit
  exact hdigit (lt_of_digitValue? hvalue)

theorem delocalizeChar_eq_self_iff {c : Char} : delocalizeChar c = c ↔ ¬ IsNative c := by
  constructor
  · intro h
    rw [← h]
    exact not_isNative_delocalizeChar c
  · intro h
    by_cases hdigit : c.isDigit = true
    · exact delocalizeChar_of_isDigit hdigit
    · cases hvalue : digitValue? c with
      | none => rw [delocalizeChar, hvalue]
      | some value =>
          obtain ⟨language, hglyph⟩ := digitValue?_eq_some_iff.mp hvalue
          exact absurd ⟨Bool.eq_false_of_not_eq_true hdigit, language, value, hglyph⟩ h

theorem delocalize_eq_self_iff {text : String} : delocalize text = text ↔ AsciiDigits text := by
  have hmap := List.map_inj_left (l := text.toList) (f := delocalizeChar) (g := id)
  rw [List.map_id] at hmap
  rw [AsciiDigits, delocalize, ← String.toList_inj, String.toList_ofList, hmap]
  simp only [← delocalizeChar_eq_self_iff, id]

theorem asciiDigits_empty : AsciiDigits "" := nofun

theorem asciiDigits_delocalize (text : String) : AsciiDigits (delocalize text) := by
  intro c hc
  rw [delocalize, String.toList_ofList] at hc
  obtain ⟨d, -, rfl⟩ := List.mem_map.mp hc
  exact not_isNative_delocalizeChar d

theorem asciiDigits_append {text text' : String} (h : AsciiDigits text) (h' : AsciiDigits text') :
    AsciiDigits (text ++ text') := by
  intro c hc
  rw [String.toList_append] at hc
  rcases List.mem_append.mp hc with hc | hc
  · exact h c hc
  · exact h' c hc

theorem asciiDigits_dropLast {text : String} (h : AsciiDigits text) :
    AsciiDigits (String.ofList text.toList.dropLast) := by
  intro c hc
  rw [String.toList_ofList] at hc
  exact h c (List.dropLast_subset _ hc)

end PocketCalculator.Proofs.DigitGlyphs

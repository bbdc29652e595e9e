import PocketCalculator.Proofs.DigitGlyphs

namespace PocketCalculator.Proofs.LocalizedDigits

open PocketCalculator.Locale
open PocketCalculator.Proofs.Characters (isDigit_iff)
open PocketCalculator.Proofs.DigitGlyphs

/-- The second text is the first one, character by character, with the given digits in the script of
a language. -/
structure WritesDigits (language : Language) (replaced : Char → Prop) (text text' : String) :
    Prop where
  length_eq : text'.length = text.length
  kept : ∀ (place : Nat) (c : Char), text.toList[place]? = some c → ¬ replaced c →
    text'.toList[place]? = some c
  written : ∀ (place : Nat) (c : Char) (source : Language) (value : Nat),
    text.toList[place]? = some c → replaced c → source.digit? value = some c →
      text'.toList[place]? = language.digit? value

theorem writesDigits_map {language : Language} {replaced : Char → Prop} {f : Char → Char}
    (hkept : ∀ c, ¬ replaced c → f c = c)
    (hwritten : ∀ c source value, replaced c → Language.digit? source value = some c →
      language.digit? value = some (f c)) (text : String) :
    WritesDigits language replaced text (String.ofList (text.toList.map f)) := by
  constructor
  · rw [String.length_ofList, List.length_map, String.length_toList]
  · intro place c hc hreplaced
    rw [String.toList_ofList, List.getElem?_map, hc, Option.map_some, hkept c hreplaced]
  · intro place c source value hc hreplaced hdigit
    rw [String.toList_ofList, List.getElem?_map, hc, Option.map_some,
      hwritten c source value hreplaced hdigit]

theorem eq_of_digit? {first second : Language} {value other : Nat} {c : Char}
    (h : first.digit? value = some c) (h' : second.digit? other = some c) : value = other := by
  have hvalue : digitValue? c = some value := digitValue?_eq_some_iff.mpr ⟨first, h⟩
  have hother : digitValue? c = some other := digitValue?_eq_some_iff.mpr ⟨second, h'⟩
  exact Option.some.inj (hvalue.symm.trans hother)

theorem digit?_english {c : Char} (h : c.isDigit) :
    Language.english.digit? (c.toNat - '0'.toNat) = some c := by
  obtain ⟨hlow, hhigh⟩ := isDigit_iff.mp h
  apply digit?_eq_some_iff.mpr
  change c.toNat - 48 < 10 ∧ Char.ofNat (48 + (c.toNat - 48)) = c
  refine ⟨by omega, ?_⟩
  rw [Nat.add_sub_cancel' hlow, Char.ofNat_toNat]

theorem digit?_localizeChar (language : Language) {c : Char} (h : c.isDigit) :
    language.digit? (c.toNat - '0'.toNat) = some (localizeChar language c) := by
  have hvalue := (digit?_eq_some_iff.mp (digit?_english h)).1
  rw [localizeChar, if_pos h, Language.digit?, if_pos hvalue, Option.getD_some]

theorem digit?_delocalizeChar {source : Language} {value : Nat} {c : Char}
    (h : source.digit? value = some c) :
    Language.english.digit? value = some (delocalizeChar c) := by
  have hall : ∀ value < 10, Language.english.digit? value = some (Nat.digitChar value) := by
    decide
  rw [delocalizeChar_of_digitValue? (digitValue?_eq_some_iff.mpr ⟨source, h⟩)]
  exact hall value (digit?_eq_some_iff.mp h).1

theorem localizeChar_of_not_isDigit (language : Language) {c : Char} (h : ¬ c.isDigit) :
    localizeChar language c = c := by
  rw [localizeChar, if_neg h]

theorem sameDigit_localizeChar (language : Language) (c : Char) :
    SameDigit (localizeChar language c) c := by
  by_cases hdigit : c.isDigit
  · exact Or.inr ⟨language, .english, _, digit?_localizeChar language hdigit, digit?_english hdigit⟩
  · exact Or.inl (localizeChar_of_not_isDigit language hdigit)

theorem delocalize_localize (language : Language) (text : String) :
    delocalize (localize language text) = delocalize text := by
  apply delocalize_eq_iff.mpr
  rw [localize, String.toList_ofList, List.forall₂_map_left_iff]
  exact List.forall₂_same.mpr fun c _ => sameDigit_localizeChar language c

theorem writesDigits_localize (language : Language) (text : String) :
    WritesDigits language (fun c => c.isDigit) text (localize language text) := by
  apply writesDigits_map
  · intro c
    exact localizeChar_of_not_isDigit language
  · intro c source value hdigit hvalue
    rw [eq_of_digit? hvalue (digit?_english hdigit)]
    exact digit?_localizeChar language hdigit

theorem writesDigits_delocalize (text : String) :
    WritesDigits .english IsNative text (delocalize text) := by
  apply writesDigits_map
  · intro c
    exact delocalizeChar_eq_self_iff.mpr
  · intro c source value _ hvalue
    exact digit?_delocalizeChar hvalue

/-- Showing a text in the digits of a language changes nothing of what it is in ASCII digits, so it
is undone just for the texts without digits of other scripts. Both ways of writing digits replace
them one by one and keep all other characters where they are, and no digit has two values. -/
theorem localize_undone (language : Language) (text : String) :
    delocalize (localize language text) = delocalize text ∧
      (delocalize text = text ↔ AsciiDigits text) ∧
      (delocalize (localize language text) = text ↔ AsciiDigits text) ∧
      delocalize (delocalize text) = delocalize text ∧
      WritesDigits language (fun c => c.isDigit) text (localize language text) ∧
      WritesDigits .english IsNative text (delocalize text) ∧
      ∀ first second value other c, Language.digit? first value = some c →
        Language.digit? second other = some c → value = other := by
  have hundone := delocalize_localize language text
  refine ⟨hundone, delocalize_eq_self_iff, ?_, ?_, ?_, ?_, ?_⟩
  · rw [hundone]
    exact delocalize_eq_self_iff
  · exact delocalize_eq_self_iff.mpr (asciiDigits_delocalize text)
  · exact writesDigits_localize language text
  · exact writesDigits_delocalize text
  · intro first second value other c hfirst hsecond
    exact eq_of_digit? hfirst hsecond

theorem localize_undone_marathi :
    localize .marathi "12+3" = "१२+३" ∧ AsciiDigits "12+3" ∧
      delocalize (localize .marathi "12+3") = "12+3" ∧
      Language.marathi.digit? 2 = some '२' ∧
      ∀ value, Language.hindi.digit? value = some '२' → 2 = value := by
  have hshown : localize .marathi "12+3" = "१२+३" := by decide +kernel
  have hascii : AsciiDigits "12+3" := delocalize_eq_self_iff.mp (by decide +kernel)
  have hdigit : Language.marathi.digit? 2 = some '२' := by decide +kernel
  obtain ⟨-, -, hback, -, -, -, hvalue⟩ := localize_undone .marathi "12+3"
  refine ⟨hshown, hascii, hback.mpr hascii, hdigit, ?_⟩
  intro value hhindi
  exact hvalue .marathi .hindi 2 value '२' hdigit hhindi

end PocketCalculator.Proofs.LocalizedDigits

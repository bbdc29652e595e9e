import PocketCalculator.Decimal.Scientific
import PocketCalculator.Proofs.TypedExpression

namespace PocketCalculator.Proofs.LongestDecimal

open PocketCalculator.Calculation
open PocketCalculator.Decimal
open PocketCalculator.Proofs.Characters
open PocketCalculator.Proofs.LexicalGrammar
open PocketCalculator.Proofs.LexicalReading
open PocketCalculator.Proofs.TypedExpression

/-- What may stand before a literal, and whether the literal is negative behind it. -/
def signs : List (List Char × Bool) := [([], false), (['+'], false), (['-'], true)]

/-- The text is a literal behind a sign or behind nothing. -/
structure Writes (text : List Char) (negative : Bool) (numeral : Numeral) : Prop where
  isLiteral : IsLiteral numeral
  exists_sign : ∃ sign, (sign, negative) ∈ signs ∧ text = sign ++ numeral.text

def IsDecimal (text : List Char) : Prop := ∃ negative numeral, Writes text negative numeral

/-- The longest decimal that a text starts with. -/
structure IsLongest (decimal text : List Char) : Prop where
  isDecimal : IsDecimal decimal
  isPrefix : decimal <+: text
  length_le : ∀ other, other <+: text → IsDecimal other → other.length ≤ decimal.length

/-- The number that a whole text is, if it is written without a power of ten. -/
def wholeNumber? (text : List Char) : Option Float :=
  match Scientific.ofText? text with
  | some ⟨negative, numeral, none⟩ => some (numeral.toFloat negative)
  | _ => none

theorem isSign_of_mem {sign : List Char} {negative : Bool} (h : (sign, negative) ∈ signs) :
    ∀ c ∈ sign, c = '+' ∨ c = '-' := by
  simp only [signs, List.mem_cons, Prod.mk.injEq, List.not_mem_nil, or_false] at h
  rcases h with ⟨rfl, -⟩ | ⟨rfl, -⟩ | ⟨rfl, -⟩ <;> simp

theorem exists_sign (cs : List Char) :
    ∃ sign, (sign, (splitSign cs).1) ∈ signs ∧ sign ++ (splitSign cs).2 = cs := by
  unfold splitSign
  split
  · exact ⟨['-'], by simp [signs], rfl⟩
  · exact ⟨['+'], by simp [signs], rfl⟩
  · exact ⟨[], by simp [signs], rfl⟩

theorem splitSign_literal {sign : List Char} {negative : Bool} {numeral : Numeral}
    (hsign : (sign, negative) ∈ signs) (h : IsLiteral numeral) (rest : List Char) :
    splitSign (sign ++ (numeral.text ++ rest)) = (negative, numeral.text ++ rest) := by
  obtain ⟨c, more, htext, hc⟩ := h.exists_text
  have hminus : c ≠ '-' := by
    rintro rfl
    revert hc
    decide
  have hplus : c ≠ '+' := by
    rintro rfl
    revert hc
    decide
  simp only [signs, List.mem_cons, Prod.mk.injEq, List.not_mem_nil, or_false] at hsign
  rcases hsign with ⟨rfl, rfl⟩ | ⟨rfl, rfl⟩ | ⟨rfl, rfl⟩
  · simp [htext, splitSign, hminus, hplus]
  · rfl
  · rfl

theorem text_isPrefix_scan {numeral : Numeral} (h : IsLiteral numeral) (rest : List Char) :
    numeral.text <+: (Numeral.scan (numeral.text ++ rest)).1.text := by
  obtain ⟨whole, point, fraction⟩ := numeral
  cases point with
  | true =>
      rw [scan_pointed h.whole, List.takeWhile_append_of_pos h.fraction]
      exact ⟨rest.takeWhile Char.isDigit, by simp [Numeral.text]⟩
  | false =>
      obtain rfl : fraction = [] := h.point rfl
      have htext : (⟨whole, false, []⟩ : Numeral).text = whole := List.append_nil whole
      have hwhole : whole <+: (Numeral.scan (whole ++ rest)).1.whole := by
        rw [whole_scan, List.takeWhile_append_of_pos h.whole]
        exact List.prefix_append whole _
      rw [htext]
      exact hwhole.trans (List.prefix_append _ _)

theorem isDigit_of_isEmpty {numeral : Numeral} (h : numeral.isEmpty) :
    ∀ c ∈ numeral.text, c.isDigit = false := by
  obtain ⟨whole, point, fraction⟩ := numeral
  simp only [Numeral.isEmpty, Bool.and_eq_true, List.isEmpty_iff] at h
  obtain ⟨rfl, rfl⟩ := h
  cases point <;> simp [Numeral.text]

theorem exists_isDigit {numeral : Numeral} (h : IsLiteral numeral) :
    ∃ c ∈ numeral.text, c.isDigit := by
  obtain ⟨whole, point, fraction⟩ := numeral
  have hnonempty := h.nonempty
  cases whole with
  | cons c whole => exact ⟨c, by simp [Numeral.text], h.whole c List.mem_cons_self⟩
  | nil =>
      cases fraction with
      | cons c fraction => exact ⟨c, by simp [Numeral.text], h.fraction c List.mem_cons_self⟩
      | nil => cases hnonempty

theorem isEmpty_scan {numeral : Numeral} (h : IsLiteral numeral) (rest : List Char) :
    (Numeral.scan (numeral.text ++ rest)).1.isEmpty = false := by
  obtain ⟨c, hc, hdigit⟩ := exists_isDigit h
  rw [← Bool.not_eq_true]
  intro hempty
  have hscanned := isDigit_of_isEmpty hempty c ((text_isPrefix_scan h rest).subset hc)
  rw [hdigit] at hscanned
  cases hscanned

theorem Writes.ofText?_eq {text : List Char} {negative : Bool} {numeral : Numeral}
    (h : Writes text negative numeral) :
    Scientific.ofText? text = some ⟨negative, numeral, none⟩ := by
  obtain ⟨hliteral, sign, hsign, rfl⟩ := h
  have hsplit := splitSign_literal hsign hliteral []
  have hscan := @scan_text numeral [] hliteral nofun
  rw [List.append_nil] at hsplit hscan
  simp [Scientific.ofText?, hsplit, hscan, hliteral.nonempty]

theorem Writes.wholeNumber?_eq {text : List Char} {negative : Bool} {numeral : Numeral}
    (h : Writes text negative numeral) :
    wholeNumber? text = some (numeral.toFloat negative) := by
  rw [wholeNumber?, h.ofText?_eq]

theorem utf8Size_of_mem_decimal {text : List Char} (h : IsDecimal text) :
    ∀ c ∈ text, c.utf8Size = 1 := by
  obtain ⟨negative, numeral, hliteral, sign, hsign, rfl⟩ := h
  intro c hc
  rw [Char.utf8Size_eq_one_iff, UInt32.le_iff_toNat_le]
  rcases List.mem_append.mp hc with hc | hc
  · rcases isSign_of_mem hsign c hc with rfl | rfl <;> decide
  · rcases IsLiteral.of_mem_text hliteral hc with hdigit | rfl
    · exact (isDigit_iff.mp hdigit).2.trans (by decide)
    · decide

theorem utf8ByteSize_eq_length {text : List Char} (h : ∀ c ∈ text, c.utf8Size = 1) :
    (String.ofList text).utf8ByteSize = text.length := by
  induction text with
  | nil => rfl
  | cons c text ih =>
      obtain ⟨hc, htext⟩ := List.forall_mem_cons.mp h
      rw [String.ofList_cons, String.utf8ByteSize_append, String.utf8ByteSize_singleton, hc,
        ih htext, List.length_cons, Nat.add_comm]

/-- A decimal at the start of a text begins like what is read there, and ends no later. -/
theorem isPrefix_scan {text decimal : List Char} (hpre : decimal <+: text)
    (h : IsDecimal decimal) :
    (Numeral.scan (splitSign text).2).1.isEmpty = false ∧
      ∃ sign, sign ++ (splitSign text).2 = text ∧
        decimal <+: sign ++ (Numeral.scan (splitSign text).2).1.text := by
  obtain ⟨rest, rfl⟩ := hpre
  obtain ⟨negative, numeral, hliteral, sign, hsign, rfl⟩ := h
  rw [List.append_assoc, splitSign_literal hsign hliteral rest]
  exact ⟨isEmpty_scan hliteral rest, sign, rfl,
    (List.prefix_append_right_inj sign).mpr (text_isPrefix_scan hliteral rest)⟩

theorem exists_longest {text : List Char}
    (h : (Numeral.scan (splitSign text).2).1.isEmpty = false) :
    ∃ decimal, IsLongest decimal text ∧
      Writes decimal (splitSign text).1 (Numeral.scan (splitSign text).2).1 := by
  obtain ⟨sign, hsign, htext⟩ := exists_sign text
  have hwrites : Writes (sign ++ (Numeral.scan (splitSign text).2).1.text) (splitSign text).1
      (Numeral.scan (splitSign text).2).1 :=
    ⟨isLiteral_of_scan h, sign, hsign, rfl⟩
  refine ⟨_, ⟨⟨_, _, hwrites⟩, ?_, ?_⟩, hwrites⟩
  · refine ⟨(Numeral.scan (splitSign text).2).2, ?_⟩
    rw [List.append_assoc, Numeral.text_scan, htext]
  · intro other hpre hother
    obtain ⟨-, sign', htext', hother⟩ := isPrefix_scan hpre hother
    obtain rfl : sign' = sign := List.append_cancel_right (htext'.trans htext.symm)
    exact hother.length_le

theorem IsLongest.unique {decimal other text : List Char} (h : IsLongest decimal text)
    (hother : IsLongest other text) : decimal = other :=
  (List.prefix_of_prefix_length_le h.isPrefix hother.isPrefix
    (hother.length_le decimal h.isPrefix h.isDecimal)).eq_of_length_le
      (h.length_le other hother.isPrefix hother.isDecimal)

theorem leadingNumber?_eq_none_iff {text : String} :
    leadingNumber? text = none ↔
      ¬ ∃ decimal, decimal <+: Text.trimStart text.toList ∧ IsDecimal decimal := by
  have hread : leadingNumber? text = none ↔
      (Numeral.scan (splitSign (Text.trimStart text.toList)).2).1.isEmpty = true := by
    simp [leadingNumber?]
  rw [hread, iff_not_comm, Bool.not_eq_true]
  constructor
  · rintro ⟨decimal, hpre, hdecimal⟩
    exact (isPrefix_scan hpre hdecimal).1
  · intro hempty
    obtain ⟨decimal, hlongest, -⟩ := exists_longest hempty
    exact ⟨decimal, hlongest.isPrefix, hlongest.isDecimal⟩

theorem leadingNumber?_of_isLongest {text : String} {decimal : List Char}
    (h : IsLongest decimal (Text.trimStart text.toList)) :
    leadingNumber? text = wholeNumber? decimal := by
  have hempty := (isPrefix_scan h.isPrefix h.isDecimal).1
  obtain ⟨read, hread, hwrites⟩ := exists_longest hempty
  obtain rfl := h.unique hread
  rw [hwrites.wholeNumber?_eq]
  simp [leadingNumber?, hempty]

theorem leadingNumber?_eq_some_iff {text : String} {value : Float} :
    leadingNumber? text = some value ↔
      ∃ decimal, IsLongest decimal (Text.trimStart text.toList) ∧
        wholeNumber? decimal = some value := by
  constructor
  · intro hvalue
    have hsome : leadingNumber? text ≠ none := by simp [hvalue]
    obtain ⟨decimal, hpre, hdecimal⟩ :=
      not_not.mp (mt leadingNumber?_eq_none_iff.mpr hsome)
    obtain ⟨longest, hlongest, -⟩ := exists_longest (isPrefix_scan hpre hdecimal).1
    exact ⟨longest, hlongest, leadingNumber?_of_isLongest hlongest ▸ hvalue⟩
  · rintro ⟨decimal, hlongest, hvalue⟩
    rw [leadingNumber?_of_isLongest hlongest, hvalue]

theorem token_ne_number {scientific : Bool} {spelling : List Char} {token : Token}
    (h : (spelling, token) ∈ lexemes scientific) (value : Float) : token ≠ .number value := by
  have hall : ∀ lexeme ∈ lexemes true, ∀ value, lexeme.2 ≠ .number value := by
    simp [lexemes, symbols, keywords]
  exact hall _ (mem_lexemes_true h) value

theorem exists_literal {scientific : Bool} {text : List Char} {pieces : List Piece} {value : Float}
    (h : Splits scientific text pieces) (htokens : pieces.flatMap Piece.tokens = [.number value]) :
    ∃ numeral rest, IsLiteral numeral ∧ (Piece.literal numeral).EndsAt rest ∧
      Text.trimStart text = numeral.text ++ rest ∧ numeral.toFloat false = value := by
  induction pieces generalizing text with
  | nil => cases htokens
  | cons piece pieces ih =>
      obtain ⟨rest, rfl, hvalid, hends, hrest⟩ := splits_cons.mp h
      cases piece with
      | blank c =>
          obtain ⟨numeral, after, hliteral, hafter, htrim, hvalue⟩ := ih hrest htokens
          refine ⟨numeral, after, hliteral, hafter, ?_, hvalue⟩
          rw [← htrim]
          exact List.dropWhile_cons_of_pos hvalid
      | literal numeral =>
          refine ⟨numeral, rest, hvalid, hends, ?_, ?_⟩
          · obtain ⟨c, more, htext, hc⟩ := IsLiteral.exists_text hvalid
            have hblank := isBlank_of_startsLiteral hc
            simp [Piece.text, htext, Text.trimStart, hblank]
          · exact Token.number.inj (List.cons.inj htokens).1
      | fixed spelling token =>
          exact absurd (List.cons.inj htokens).1 (token_ne_number hvalid value)

theorem leadingNumber?_of_tokenize {scientific : Bool} {text : String} {value : Float}
    (h : tokenize scientific text = .ok [.number value]) : leadingNumber? text = some value := by
  obtain ⟨pieces, hsplits, htokens⟩ := tokenize_eq_ok_iff.mp h
  obtain ⟨numeral, rest, hliteral, hends, htrim, rfl⟩ := exists_literal hsplits htokens
  have hsplit := @splitSign_literal [] false numeral (by simp [signs]) hliteral rest
  rw [List.nil_append] at hsplit
  simp [leadingNumber?, htrim, hsplit, scan_text hliteral hends, hliteral.nonempty]

/-- The number at the start of a text, behind blanks, is that of the longest decimal there, and
there is none just if there is no decimal. The decimal is always read as a number, and each of its
characters is a single byte. A text that is a single number as an expression starts with that
number. -/
theorem leadingNumber?_longest (text : String) :
    let start := Text.trimStart text.toList
    (leadingNumber? text = none ↔ ¬ ∃ decimal, decimal <+: start ∧ IsDecimal decimal) ∧
      (∀ value, leadingNumber? text = some value ↔
        ∃ decimal, IsLongest decimal start ∧ wholeNumber? decimal = some value) ∧
      (∀ decimal, IsLongest decimal start →
        (wholeNumber? decimal).isSome ∧
          (String.ofList decimal).utf8ByteSize = decimal.length) ∧
      ∀ scientific value, tokenize scientific text = .ok [.number value] →
        leadingNumber? text = some value := by
  refine ⟨leadingNumber?_eq_none_iff, fun value => leadingNumber?_eq_some_iff, ?_, ?_⟩
  · intro decimal hlongest
    obtain ⟨negative, numeral, hwrites⟩ := hlongest.isDecimal
    exact ⟨by simp [hwrites.wholeNumber?_eq],
      utf8ByteSize_eq_length (utf8Size_of_mem_decimal hlongest.isDecimal)⟩
  · intro scientific value hread
    exact leadingNumber?_of_tokenize hread

end PocketCalculator.Proofs.LongestDecimal

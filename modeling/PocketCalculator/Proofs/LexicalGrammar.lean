import Mathlib.Data.List.Chain
import PocketCalculator.Calculation.Lexeme
import PocketCalculator.Proofs.Characters

/-!
The lexical grammar of expressions. A text is cut into blanks, literals and lexemes with a fixed
spelling. Two rules keep the cut the only one: literals do not touch, and nothing that starts with
a star touches a single star in front of it.
-/

namespace PocketCalculator.Proofs.LexicalGrammar

open PocketCalculator.Calculation
open PocketCalculator.Decimal (Numeral)
open PocketCalculator.Proofs.Characters

/-- The operators, signs and parentheses. -/
def symbols : List (List Char × Token) :=
  [(['+'], .plus), (['-'], .minus .ascii), (['−'], .minus .sign), (['*'], .times .ascii),
    (['*', '*'], .power .stars), (['×'], .times .sign), (['/'], .divide .ascii),
    (['÷'], .divide .sign), (['%'], .percent), (['^'], .power .caret), (['('], .openParen),
    ([')'], .closeParen), (['π'], .pi), (['√'], .function .sqrt)]

/-- The words. Those of the scientific keypad can be switched off. -/
def keywords (scientific : Bool) : List (List Char × Token) :=
  [(['s', 'q', 'r', 't'], .function .sqrt), (['M', 'o', 'd'], .modulo), (['e'], .euler)] ++
    if scientific then
      [(['s', 'i', 'n'], .function .sin), (['c', 'o', 's'], .function .cos),
        (['t', 'a', 'n'], .function .tan), (['l', 'o', 'g'], .function .log)]
    else []

theorem mem_keywords {scientific : Bool} {word : List Char} {token : Token} :
    (word, token) ∈ keywords scientific ↔
      word = ['s', 'q', 'r', 't'] ∧ token = .function .sqrt ∨
        word = ['M', 'o', 'd'] ∧ token = .modulo ∨ word = ['e'] ∧ token = .euler ∨
          scientific = true ∧
            (word = ['s', 'i', 'n'] ∧ token = .function .sin ∨
              word = ['c', 'o', 's'] ∧ token = .function .cos ∨
                word = ['t', 'a', 'n'] ∧ token = .function .tan ∨
                  word = ['l', 'o', 'g'] ∧ token = .function .log) := by
  cases scientific <;> simp [keywords]

/-- The lexemes with a fixed spelling, and their tokens. -/
def lexemes (scientific : Bool) : List (List Char × Token) :=
  symbols ++ keywords scientific

/-- A decimal literal: ASCII digits with at most one point and at least one digit. -/
structure IsLiteral (numeral : Numeral) : Prop where
  whole : ∀ c ∈ numeral.whole, c.isDigit
  fraction : ∀ c ∈ numeral.fraction, c.isDigit
  point : numeral.point = false → numeral.fraction = []
  nonempty : numeral.isEmpty = false

inductive Piece where
  | blank (c : Char)
  | literal (numeral : Numeral)
  | fixed (spelling : List Char) (token : Token)

namespace Piece

def text : Piece → List Char
  | blank c => [c]
  | literal numeral => numeral.text
  | fixed spelling _ => spelling

def tokens : Piece → List Token
  | blank _ => []
  | literal numeral => [.number (numeral.toFloat false)]
  | fixed _ token => [token]

def Valid (scientific : Bool) : Piece → Prop
  | blank c => Text.isBlank c
  | literal numeral => IsLiteral numeral
  | fixed spelling token => (spelling, token) ∈ lexemes scientific

/-- Whether one piece may stand right before another. -/
def Before : Piece → Piece → Prop
  | literal _, literal _ => False
  | fixed ['*'] _, next => next.text.head? ≠ some '*'
  | _, _ => True

/-- Whether a piece ends where the rest of the text begins. -/
def EndsAt : Piece → List Char → Prop
  | literal _, rest => ∀ c ∈ rest.head?, c.isDigit = false ∧ c ≠ '.'
  | fixed ['*'] _, rest => rest.head? ≠ some '*'
  | _, _ => True

end Piece

/-- The text is the given pieces, one after the other. -/
structure Splits (scientific : Bool) (text : List Char) (pieces : List Piece) : Prop where
  valid : ∀ piece ∈ pieces, piece.Valid scientific
  chain : pieces.IsChain Piece.Before
  text_eq : pieces.flatMap Piece.text = text

theorem IsLiteral.exists_text {numeral : Numeral} (h : IsLiteral numeral) :
    ∃ c rest, numeral.text = c :: rest ∧ (c.isDigit ∨ c = '.') := by
  obtain ⟨whole, point, fraction⟩ := numeral
  cases whole with
  | cons c whole => exact ⟨c, _, rfl, Or.inl (h.whole c (by simp))⟩
  | nil =>
      cases hpoint : point with
      | true => exact ⟨'.', fraction, rfl, Or.inr rfl⟩
      | false =>
          have hfraction : fraction = [] := h.point hpoint
          have hempty := h.nonempty
          simp [Numeral.isEmpty, hfraction] at hempty

theorem IsLiteral.of_mem_text {numeral : Numeral} (h : IsLiteral numeral) {c : Char}
    (hc : c ∈ numeral.text) : c.isDigit ∨ c = '.' := by
  rcases List.mem_append.mp hc with hc | hc
  · exact Or.inl (h.whole c hc)
  rcases List.mem_append.mp hc with hc | hc
  · right
    by_contra hne
    cases hpoint : numeral.point <;> simp_all
  · exact Or.inl (h.fraction c hc)

/-- What a lexeme with a fixed spelling starts with. -/
def startsFixed (c : Char) : Bool :=
  !Text.isBlank c && !c.isDigit && c != '.'

theorem mem_keywords_true {scientific : Bool} {entry : List Char × Token}
    (h : entry ∈ keywords scientific) : entry ∈ keywords true := by
  cases scientific with
  | true => exact h
  | false => exact List.mem_append_left _ (by simpa [keywords] using h)

theorem mem_lexemes_true {scientific : Bool} {lexeme : List Char × Token}
    (h : lexeme ∈ lexemes scientific) : lexeme ∈ lexemes true := by
  rcases List.mem_append.mp h with h | h
  · exact List.mem_append_left _ h
  · exact List.mem_append_right _ (mem_keywords_true h)

theorem not_startsLiteral_of_mem_lexemes {scientific : Bool} {spelling : List Char}
    {token : Token} (h : (spelling, token) ∈ lexemes scientific) {c : Char} (hc : c ∈ spelling) :
    ¬ (c.isDigit ∨ c = '.') := by
  have hall : ∀ lexeme ∈ lexemes true, lexeme.1.any (fun c => c.isDigit || c == '.') = false := by
    decide
  have hspelling := hall _ (mem_lexemes_true h)
  simpa using List.any_eq_false.mp hspelling c hc

theorem exists_text_fixed {scientific : Bool} {spelling : List Char} {token : Token}
    (h : (spelling, token) ∈ lexemes scientific) :
    ∃ c rest, spelling = c :: rest ∧ startsFixed c := by
  have hall : ∀ lexeme ∈ lexemes true, lexeme.1.head?.any startsFixed := by
    decide
  have hstarts := hall _ (mem_lexemes_true h)
  cases spelling with
  | nil => cases hstarts
  | cons c rest => exact ⟨c, rest, rfl, hstarts⟩

theorem isBlank_of_startsLiteral {c : Char} (h : c.isDigit ∨ c = '.') :
    Text.isBlank c = false := by
  rcases h with h | rfl
  · have hrange := isDigit_iff.mp h
    simp [Text.isBlank]
    omega
  · decide

theorem Piece.exists_text {scientific : Bool} {piece : Piece} (h : piece.Valid scientific) :
    ∃ c rest, piece.text = c :: rest := by
  cases piece with
  | blank c => exact ⟨c, [], rfl⟩
  | literal numeral =>
      obtain ⟨c, rest, htext, -⟩ := IsLiteral.exists_text h
      exact ⟨c, rest, htext⟩
  | fixed spelling token =>
      obtain ⟨c, rest, htext, -⟩ := exists_text_fixed h
      exact ⟨c, rest, htext⟩

variable {scientific : Bool}

@[simp] theorem splits_nil {text : List Char} : Splits scientific text [] ↔ text = [] := by
  constructor
  · rintro ⟨-, -, rfl⟩
    rfl
  · rintro rfl
    exact ⟨by simp, .nil, rfl⟩

theorem literal_before_iff {numeral : Numeral} {next : Piece} {c : Char} {rest : List Char}
    (h : next.Valid scientific) (htext : next.text = c :: rest) :
    (Piece.literal numeral).Before next ↔ c.isDigit = false ∧ c ≠ '.' := by
  cases next with
  | blank b =>
      obtain ⟨rfl, -⟩ := List.cons.inj htext
      have hstart : ¬ (b.isDigit ∨ b = '.') := by
        intro hstart
        have hblank : Text.isBlank b := h
        rw [isBlank_of_startsLiteral hstart] at hblank
        cases hblank
      exact iff_of_true trivial (by simpa using hstart)
  | literal numeral' =>
      obtain ⟨c', rest', htext', hstart⟩ := IsLiteral.exists_text h
      obtain ⟨rfl, -⟩ := List.cons.inj (htext.symm.trans htext')
      refine iff_of_false id ?_
      rintro ⟨hdigit, hpoint⟩
      rcases hstart with hstart | hstart
      · rw [hdigit] at hstart
        cases hstart
      · exact hpoint hstart
  | fixed spelling token =>
      obtain ⟨c', rest', htext', hstart⟩ := exists_text_fixed h
      obtain ⟨rfl, -⟩ := List.cons.inj (htext.symm.trans htext')
      simp only [startsFixed, Bool.and_eq_true, Bool.not_eq_true', bne_iff_ne] at hstart
      exact iff_of_true trivial ⟨hstart.1.2, hstart.2⟩

theorem Splits.endsAt_iff {rest : List Char} {pieces : List Piece}
    (h : Splits scientific rest pieces) (piece : Piece) :
    piece.EndsAt rest ↔ ∀ next ∈ pieces.head?, piece.Before next := by
  cases pieces with
  | nil =>
      obtain rfl := splits_nil.mp h
      unfold Piece.EndsAt
      split <;> simp
  | cons next pieces =>
      obtain ⟨hvalid, -, rfl⟩ := h
      have hnext := hvalid next List.mem_cons_self
      obtain ⟨c, rest, htext⟩ := Piece.exists_text hnext
      simp only [List.flatMap_cons, htext, List.cons_append, List.head?_cons, Option.mem_some,
        forall_eq']
      cases piece with
      | blank b => exact Iff.rfl
      | literal numeral =>
          rw [literal_before_iff hnext htext]
          simp [Piece.EndsAt]
      | fixed spelling token =>
          by_cases hstar : spelling = ['*']
          · subst hstar
            simp [Piece.EndsAt, Piece.Before, htext]
          · simp [Piece.EndsAt, Piece.Before, hstar]

theorem splits_cons {text : List Char} {piece : Piece} {pieces : List Piece} :
    Splits scientific text (piece :: pieces) ↔
      ∃ rest, piece.text ++ rest = text ∧ piece.Valid scientific ∧ piece.EndsAt rest ∧
        Splits scientific rest pieces := by
  constructor
  · rintro ⟨hvalid, hchain, rfl⟩
    obtain ⟨hbefore, hchain⟩ := List.isChain_cons.mp hchain
    have hrest : Splits scientific (pieces.flatMap Piece.text) pieces :=
      ⟨fun next hnext => hvalid next (List.mem_cons_of_mem _ hnext), hchain, rfl⟩
    exact ⟨_, rfl, hvalid piece List.mem_cons_self, (hrest.endsAt_iff piece).mpr hbefore, hrest⟩
  · rintro ⟨rest, rfl, hvalid, hends, hrest⟩
    refine ⟨?_, List.isChain_cons.mpr ⟨(hrest.endsAt_iff piece).mp hends, hrest.chain⟩, ?_⟩
    · intro next hnext
      rcases List.mem_cons.mp hnext with rfl | hnext
      · exact hvalid
      · exact hrest.valid next hnext
    · rw [List.flatMap_cons, hrest.text_eq]

/-- The piece that stands at the start of a text, and the text after it. -/
def firstPiece? (scientific : Bool) : List Char → Option (Piece × List Char)
  | [] => none
  | c :: rest =>
    if Text.isBlank c then some (.blank c, rest)
    else if c.isDigit || c == '.' then
      let scanned := Numeral.scan (c :: rest)
      if scanned.2.head? = some '.' ∨ scanned.1.isEmpty then none
      else some (.literal scanned.1, scanned.2)
    else if c.isAlpha then
      ((keywords scientific).find? fun entry => entry.1.isPrefixOf (c :: rest)).map
        fun (word, token) => (.fixed word token, (c :: rest).drop word.length)
    else
      (symbol? c rest).map
        fun (token, further) => (.fixed (c :: rest.take further) token, rest.drop further)

theorem scan_of_point {cs rest : List Char} (h : cs.dropWhile Char.isDigit = '.' :: rest) :
    Numeral.scan cs =
      (⟨cs.takeWhile Char.isDigit, true, rest.takeWhile Char.isDigit⟩,
        rest.dropWhile Char.isDigit) := by
  simp only [Numeral.scan, h]

theorem scan_of_ne_point {cs : List Char} (h : (cs.dropWhile Char.isDigit).head? ≠ some '.') :
    Numeral.scan cs =
      (⟨cs.takeWhile Char.isDigit, false, []⟩, cs.dropWhile Char.isDigit) := by
  unfold Numeral.scan
  split
  · rename_i rest hrest
    rw [hrest] at h
    exact absurd rfl h
  · rfl

theorem whole_scan (cs : List Char) :
    (Numeral.scan cs).1.whole = cs.takeWhile Char.isDigit := by
  unfold Numeral.scan
  split <;> rfl

theorem scan_pointed {whole : List Char} (hwhole : ∀ c ∈ whole, c.isDigit)
    (fraction rest : List Char) :
    Numeral.scan ((⟨whole, true, fraction⟩ : Numeral).text ++ rest) =
      (⟨whole, true, (fraction ++ rest).takeWhile Char.isDigit⟩,
        (fraction ++ rest).dropWhile Char.isDigit) := by
  have hends := @takeWhile_append_of_ends Char.isDigit whole ('.' :: (fraction ++ rest))
    hwhole (by simp)
  have htext : (⟨whole, true, fraction⟩ : Numeral).text ++ rest =
      whole ++ '.' :: (fraction ++ rest) := by
    simp [Numeral.text]
  rw [htext, scan_of_point hends.2, hends.1]

theorem scan_text {numeral : Numeral} {rest : List Char} (h : IsLiteral numeral)
    (hends : (Piece.literal numeral).EndsAt rest) :
    Numeral.scan (numeral.text ++ rest) = (numeral, rest) := by
  obtain ⟨whole, point, fraction⟩ := numeral
  cases point with
  | true =>
      have hfraction := takeWhile_append_of_ends h.fraction fun c hc => (hends c hc).1
      rw [scan_pointed h.whole, hfraction.1, hfraction.2]
  | false =>
      obtain rfl : fraction = [] := h.point rfl
      have hwhole := takeWhile_append_of_ends h.whole fun c hc => (hends c hc).1
      have htext : (⟨whole, false, []⟩ : Numeral).text ++ rest = whole ++ rest := by
        simp [Numeral.text]
      have hpoint : ((whole ++ rest).dropWhile Char.isDigit).head? ≠ some '.' := by
        rw [hwhole.2]
        exact fun hhead => (hends '.' hhead).2 rfl
      rw [htext, scan_of_ne_point hpoint, hwhole.1, hwhole.2]

theorem isLiteral_of_scan {cs : List Char} (hempty : (Numeral.scan cs).1.isEmpty = false) :
    IsLiteral (Numeral.scan cs).1 := by
  have hdigits : ∀ cs : List Char, ∀ c ∈ cs.takeWhile Char.isDigit, c.isDigit :=
    fun cs c hc => List.mem_takeWhile_imp hc
  by_cases h : (cs.dropWhile Char.isDigit).head? = some '.'
  · obtain ⟨rest, hrest⟩ := List.head?_eq_some_iff.mp h
    rw [scan_of_point hrest] at hempty ⊢
    exact ⟨hdigits cs, hdigits rest, by simp, hempty⟩
  · rw [scan_of_ne_point h] at hempty ⊢
    exact ⟨hdigits cs, by simp, by simp, hempty⟩

/-- What is scanned is a literal up to its end, unless it has no digit or a second point. -/
theorem isLiteral_scan {cs : List Char} (hempty : (Numeral.scan cs).1.isEmpty = false)
    (hpoint : (Numeral.scan cs).2.head? ≠ some '.') :
    IsLiteral (Numeral.scan cs).1 ∧
      (Piece.literal (Numeral.scan cs).1).EndsAt (Numeral.scan cs).2 := by
  have hends := eq_false_of_head?_dropWhile Char.isDigit
  refine ⟨isLiteral_of_scan hempty, ?_⟩
  by_cases h : (cs.dropWhile Char.isDigit).head? = some '.'
  · obtain ⟨rest, hrest⟩ := List.head?_eq_some_iff.mp h
    rw [scan_of_point hrest] at hpoint ⊢
    intro c hc
    refine ⟨hends rest c hc, ?_⟩
    rintro rfl
    exact hpoint hc
  · rw [scan_of_ne_point h]
    intro c hc
    refine ⟨hends cs c hc, ?_⟩
    rintro rfl
    exact h hc

theorem endsAt_keyword {word : List Char} {token : Token}
    (h : (word, token) ∈ keywords scientific) (rest : List Char) :
    (Piece.fixed word token).EndsAt rest := by
  have hstar : word ≠ ['*'] := by
    rintro rfl
    simp [mem_keywords] at h
  simp [Piece.EndsAt, hstar]

theorem symbol?_eq_some {c : Char} {rest : List Char} {token : Token} {further : Nat}
    (h : symbol? c rest = some (token, further)) :
    (c :: rest.take further, token) ∈ symbols ∧
      (Piece.fixed (c :: rest.take further) token).EndsAt (rest.drop further) := by
  unfold symbol? at h
  split at h
  case h_4 =>
    split at h
    · rename_i hstar
      obtain ⟨after, rfl⟩ := List.head?_eq_some_iff.mp hstar
      cases h
      simp [symbols, Piece.EndsAt]
    · rename_i hstar
      cases h
      simpa [symbols, Piece.EndsAt] using hstar
  case h_14 => cases h
  all_goals
    cases h
    simp [symbols, Piece.EndsAt]

theorem firstPiece?_sound {cs : List Char} {piece : Piece} {rest : List Char}
    (h : firstPiece? scientific cs = some (piece, rest)) :
    piece.text ++ rest = cs ∧ piece.Valid scientific ∧ piece.EndsAt rest := by
  cases cs with
  | nil => cases h
  | cons c cs =>
      simp only [firstPiece?] at h
      by_cases hblank : Text.isBlank c
      · rw [if_pos hblank] at h
        cases h
        exact ⟨rfl, hblank, trivial⟩
      rw [if_neg hblank] at h
      by_cases hdigit : c.isDigit || c == '.'
      · rw [if_pos hdigit] at h
        split at h
        · cases h
        · rename_i hscan
          obtain ⟨hpoint, hempty⟩ := not_or.mp hscan
          obtain ⟨hliteral, hends⟩ := isLiteral_scan (by simpa using hempty) hpoint
          cases h
          exact ⟨Numeral.text_scan (c :: cs), hliteral, hends⟩
      rw [if_neg hdigit] at h
      by_cases halpha : c.isAlpha
      · rw [if_pos halpha] at h
        obtain ⟨⟨word, token⟩, hfind, heq⟩ := Option.map_eq_some_iff.mp h
        cases heq
        have hmem := List.mem_of_find?_eq_some hfind
        have hword : word <+: c :: cs := by
          simpa using List.find?_some hfind
        exact ⟨List.prefix_iff_eq_append.mp hword, List.mem_append_right _ hmem,
          endsAt_keyword hmem _⟩
      · rw [if_neg halpha] at h
        obtain ⟨⟨token, further⟩, hsymbol, heq⟩ := Option.map_eq_some_iff.mp h
        cases heq
        obtain ⟨hmem, hends⟩ := symbol?_eq_some hsymbol
        exact ⟨by simp [Piece.text], List.mem_append_left _ hmem, hends⟩

theorem firstPiece?_symbol {spelling : List Char} {token : Token} {rest : List Char}
    (h : (spelling, token) ∈ symbols) (hends : (Piece.fixed spelling token).EndsAt rest) :
    firstPiece? scientific (spelling ++ rest) = some (.fixed spelling token, rest) := by
  by_cases hstar : spelling = ['*']
  · subst hstar
    obtain rfl : token = .times .ascii := by
      simpa [symbols] using h
    have hsymbol : symbol? '*' rest = some (.times .ascii, 0) := if_neg hends
    change (symbol? '*' rest).map _ = _
    rw [hsymbol]
    rfl
  · simp only [symbols, List.mem_cons, Prod.mk.injEq, hstar, false_and, false_or, List.not_mem_nil,
      or_false] at h
    rcases h with h | h | h | h | h | h | h | h | h | h | h | h | h <;>
      (obtain ⟨rfl, rfl⟩ := h; rfl)

theorem firstPiece?_keyword {word : List Char} {token : Token}
    (h : (word, token) ∈ keywords scientific) (rest : List Char) :
    firstPiece? scientific (word ++ rest) = some (.fixed word token, rest) := by
  rcases mem_keywords.mp h with h | h | h | ⟨rfl, h | h | h | h⟩ <;>
    (obtain ⟨rfl, rfl⟩ := h; rfl)

theorem firstPiece?_complete {piece : Piece} {rest : List Char} (hvalid : piece.Valid scientific)
    (hends : piece.EndsAt rest) :
    firstPiece? scientific (piece.text ++ rest) = some (piece, rest) := by
  cases piece with
  | blank c =>
      have hblank : Text.isBlank c := hvalid
      simp [Piece.text, firstPiece?, hblank]
  | literal numeral =>
      have hscan := scan_text hvalid hends
      have hpoint : rest.head? ≠ some '.' := fun hhead => (hends '.' hhead).2 rfl
      obtain ⟨c, tail, htext, hstart⟩ := IsLiteral.exists_text hvalid
      have hblank := isBlank_of_startsLiteral hstart
      rw [htext, List.cons_append] at hscan
      simp [Piece.text, htext, firstPiece?, hblank, hstart, hscan, hpoint, hvalid.nonempty]
  | fixed spelling token =>
      rcases List.mem_append.mp hvalid with hmem | hmem
      · exact firstPiece?_symbol hmem hends
      · exact firstPiece?_keyword hmem rest

theorem firstPiece?_eq_some_iff {cs : List Char} {piece : Piece} {rest : List Char} :
    firstPiece? scientific cs = some (piece, rest) ↔
      piece.text ++ rest = cs ∧ piece.Valid scientific ∧ piece.EndsAt rest := by
  constructor
  · exact firstPiece?_sound
  · rintro ⟨rfl, hvalid, hends⟩
    exact firstPiece?_complete hvalid hends

theorem splits_cons_iff_firstPiece? {text : List Char} {piece : Piece} {pieces : List Piece} :
    Splits scientific text (piece :: pieces) ↔
      ∃ rest, firstPiece? scientific text = some (piece, rest) ∧ Splits scientific rest pieces := by
  simp only [splits_cons, firstPiece?_eq_some_iff, and_assoc]

theorem splits_empty {pieces : List Piece} : Splits scientific [] pieces ↔ pieces = [] := by
  cases pieces with
  | nil => simp
  | cons piece pieces => simp [splits_cons_iff_firstPiece?, firstPiece?]

theorem length_lt_of_firstPiece? {cs : List Char} {piece : Piece} {rest : List Char}
    (h : firstPiece? scientific cs = some (piece, rest)) : rest.length < cs.length := by
  obtain ⟨rfl, hvalid, -⟩ := firstPiece?_eq_some_iff.mp h
  obtain ⟨c, tail, htext⟩ := Piece.exists_text hvalid
  rw [htext, List.length_append, List.length_cons]
  omega

/-- A text is cut into pieces in one way only. -/
theorem Splits.unique {text : List Char} {pieces pieces' : List Piece}
    (h : Splits scientific text pieces) (h' : Splits scientific text pieces') :
    pieces = pieces' := by
  induction pieces generalizing text pieces' with
  | nil =>
      obtain rfl := splits_nil.mp h
      exact (splits_empty.mp h').symm
  | cons piece pieces ih =>
      cases pieces' with
      | nil =>
          obtain rfl := splits_nil.mp h'
          exact splits_empty.mp h
      | cons piece' pieces' =>
          obtain ⟨rest, hfirst, hrest⟩ := splits_cons_iff_firstPiece?.mp h
          obtain ⟨rest', hfirst', hrest'⟩ := splits_cons_iff_firstPiece?.mp h'
          obtain ⟨rfl, rfl⟩ := Prod.mk.inj (Option.some.inj (hfirst.symm.trans hfirst'))
          rw [ih hrest hrest']

end PocketCalculator.Proofs.LexicalGrammar

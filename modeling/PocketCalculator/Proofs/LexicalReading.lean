import PocketCalculator.Calculation.Engine
import PocketCalculator.Proofs.LexicalGrammar

namespace PocketCalculator.Proofs.LexicalReading

open PocketCalculator.Calculation
open PocketCalculator.Decimal (Numeral)
open PocketCalculator.Proofs.Characters
open PocketCalculator.Proofs.LexicalGrammar

theorem toOption_map {ε α β : Type} (x : Except ε α) (f : α → β) :
    (x.map f).toOption = x.toOption.map f := by
  cases x <;> rfl

variable {scientific : Bool}

theorem toOption_splitLetters (unknown unknown' : LexicalFault) (word : List Char) :
    (splitLetters scientific unknown word).toOption =
      (splitLetters scientific unknown' word).toOption := by
  fun_induction splitLetters scientific unknown word <;>
    simp_all [splitLetters, toOption_map]
  rfl

theorem toOption_lexeme (position position' : Nat) (c : Char) (rest : List Char) :
    (lexeme scientific position c rest).toOption =
      (lexeme scientific position' c rest).toOption := by
  unfold lexeme
  by_cases hblank : Text.isBlank c
  · simp only [if_pos hblank]
  simp only [if_neg hblank]
  by_cases hdigit : c.isDigit || c == '.'
  · simp only [if_pos hdigit]
    split
    · rfl
    · rfl
  simp only [if_neg hdigit]
  by_cases halpha : c.isAlpha
  · simp only [if_pos halpha, toOption_map]
    rw [toOption_splitLetters]
  · simp only [if_neg halpha]
    cases symbol? c rest <;> rfl

theorem tokensFrom_nil (position : Nat) : tokensFrom scientific position [] = .ok [] := by
  rw [tokensFrom.eq_def]

theorem toOption_tokensFrom_cons (position : Nat) (c : Char) (rest : List Char) :
    (tokensFrom scientific position (c :: rest)).toOption =
      (lexeme scientific position c rest).toOption.bind fun found =>
        (tokensFrom scientific (position + 1 + found.2) (rest.drop found.2)).toOption.map
          (found.1 ++ ·) := by
  rw [tokensFrom.eq_def]
  simp only
  cases lexeme scientific position c rest with
  | error fault => rfl
  | ok found => exact toOption_map _ _

theorem toOption_tokensFrom (position position' : Nat) (cs : List Char) :
    (tokensFrom scientific position cs).toOption =
      (tokensFrom scientific position' cs).toOption := by
  induction hlength : cs.length using Nat.strongRecOn generalizing position position' cs with
  | ind n ih =>
      cases cs with
      | nil => rw [tokensFrom_nil, tokensFrom_nil]
      | cons c rest =>
          rw [toOption_tokensFrom_cons, toOption_tokensFrom_cons,
            toOption_lexeme position position']
          congr 1
          funext found
          rw [ih (rest.drop found.2).length ?_ _ (position' + 1 + found.2) _ rfl]
          simp only [← hlength, List.length_drop, List.length_cons]
          omega

/-- The tokens of a text, if it has any reading. -/
def tokens? (scientific : Bool) (cs : List Char) : Option (List Token) :=
  (tokensFrom scientific 0 cs).toOption

@[simp] theorem tokens?_nil : tokens? scientific [] = some [] := by
  rw [tokens?, tokensFrom_nil]
  rfl

theorem tokens?_cons (c : Char) (rest : List Char) :
    tokens? scientific (c :: rest) =
      (lexeme scientific 0 c rest).toOption.bind fun found =>
        (tokens? scientific (rest.drop found.2)).map (found.1 ++ ·) := by
  rw [tokens?, toOption_tokensFrom_cons]
  congr 1
  funext found
  rw [toOption_tokensFrom _ 0]
  rfl

theorem letter_classes {c : Char} (h : c.isAlpha) :
    Text.isBlank c = false ∧ (c.isDigit || c == '.') = false := by
  have hrange := isAlpha_iff.mp h
  refine ⟨?_, Bool.or_eq_false_iff.mpr ⟨?_, ?_⟩⟩
  · simp [Text.isBlank]
    omega
  · rw [← Bool.not_eq_true, isDigit_iff]
    omega
  · rw [beq_eq_false_iff_ne]
    rintro rfl
    simp at hrange

theorem lexeme_letter (position : Nat) {c : Char} (rest : List Char) (h : c.isAlpha) :
    lexeme scientific position c rest =
      (splitLetters scientific
        (.unknownIdentifier ((c :: rest).takeWhile Char.isAlpha) position)
        ((c :: rest).takeWhile Char.isAlpha)).map
          fun tokens => (tokens, (rest.takeWhile Char.isAlpha).length) := by
  obtain ⟨hblank, hdigit⟩ := letter_classes h
  simp [lexeme, hblank, hdigit, h]

theorem tokens?_letters (unknown : LexicalFault) (cs : List Char) :
    tokens? scientific cs =
      (splitLetters scientific unknown (cs.takeWhile Char.isAlpha)).toOption.bind fun tokens =>
        (tokens? scientific (cs.dropWhile Char.isAlpha)).map (tokens ++ ·) := by
  cases cs with
  | nil => simp [splitLetters, Except.toOption]
  | cons c rest =>
      by_cases halpha : c.isAlpha
      · rw [tokens?_cons, lexeme_letter 0 rest halpha, toOption_map,
          toOption_splitLetters _ unknown, Option.bind_map, List.dropWhile_cons_of_pos halpha]
        congr 1
        funext tokens
        simp only [Function.comp_apply, drop_length_takeWhile]
      · rw [List.takeWhile_cons_of_neg halpha, List.dropWhile_cons_of_neg halpha]
        simp [splitLetters, Except.toOption]

theorem splitLetters_keyword {word : List Char} {token : Token}
    (h : (word, token) ∈ keywords scientific) (unknown : LexicalFault) (rest : List Char) :
    splitLetters scientific unknown (word ++ rest) =
      (splitLetters scientific unknown rest).map (token :: ·) := by
  rcases mem_keywords.mp h with h | h | h | ⟨rfl, h | h | h | h⟩ <;>
    (obtain ⟨rfl, rfl⟩ := h; simp [splitLetters])

theorem toOption_splitLetters_eq_none {word : List Char} (hne : word ≠ [])
    (h : ∀ entry ∈ keywords scientific, ¬ entry.1 <+: word) (unknown : LexicalFault) :
    (splitLetters scientific unknown word).toOption = none := by
  unfold splitLetters
  split
  case h_1 => exact absurd rfl hne
  case h_9 => rfl
  all_goals
    cases scientific <;> simp_all [keywords]
  all_goals
    rfl

theorem isAlpha_of_mem_keywords {word : List Char} {token : Token}
    (h : (word, token) ∈ keywords scientific) : ∀ c ∈ word, c.isAlpha := by
  rw [← List.all_eq_true]
  rcases mem_keywords.mp h with h | h | h | ⟨-, h | h | h | h⟩ <;>
    (obtain ⟨rfl, -⟩ := h; rfl)

theorem tokens?_keyword {word : List Char} {token : Token}
    (h : (word, token) ∈ keywords scientific) (rest : List Char) :
    tokens? scientific (word ++ rest) = (tokens? scientific rest).map (token :: ·) := by
  have halpha := isAlpha_of_mem_keywords h
  rw [tokens?_letters .lonePoint, tokens?_letters .lonePoint rest,
    List.takeWhile_append_of_pos halpha, List.dropWhile_append_of_pos halpha,
    splitLetters_keyword h, toOption_map, Option.bind_map, Option.map_bind]
  congr 1
  funext tokens
  simp only [Function.comp_apply, Option.map_map, List.cons_append]
  rfl

theorem tokens?_letter {c : Char} {rest : List Char} (h : c.isAlpha) :
    tokens? scientific (c :: rest) =
      ((keywords scientific).find? fun entry => entry.1.isPrefixOf (c :: rest)).bind
        fun (word, token) =>
          (tokens? scientific ((c :: rest).drop word.length)).map (token :: ·) := by
  cases hfind : (keywords scientific).find? fun entry => entry.1.isPrefixOf (c :: rest) with
  | none =>
      have hnone : ∀ entry ∈ keywords scientific,
          ¬ entry.1 <+: (c :: rest).takeWhile Char.isAlpha := by
        intro entry hentry hbegins
        have hentry := List.find?_eq_none.mp hfind entry hentry
        exact hentry (by simpa using hbegins.trans (List.takeWhile_prefix _))
      have hne : (c :: rest).takeWhile Char.isAlpha ≠ [] := by
        rw [List.takeWhile_cons_of_pos h]
        exact List.cons_ne_nil _ _
      rw [tokens?_letters .lonePoint, toOption_splitLetters_eq_none hne hnone]
      rfl
  | some entry =>
      obtain ⟨word, token⟩ := entry
      have hmem := List.mem_of_find?_eq_some hfind
      have hword : word <+: c :: rest := by
        simpa using List.find?_some hfind
      obtain ⟨later, hlater⟩ := hword
      simp only [Option.bind_some, ← hlater, List.drop_left, tokens?_keyword hmem]

theorem width_pos {numeral : Numeral} (h : numeral.isEmpty = false) : 0 < numeral.width := by
  obtain ⟨whole, point, fraction⟩ := numeral
  cases whole with
  | cons c whole =>
      simp only [Numeral.width, List.length_cons]
      omega
  | nil =>
      cases fraction with
      | cons c fraction =>
          simp only [Numeral.width, List.length_cons]
          omega
      | nil => cases h

theorem drop_scan {c : Char} {rest : List Char}
    (h : (Numeral.scan (c :: rest)).1.isEmpty = false) :
    rest.drop ((Numeral.scan (c :: rest)).1.width - 1) = (Numeral.scan (c :: rest)).2 := by
  have hwidth := width_pos h
  have htext := Numeral.text_scan (c :: rest)
  generalize Numeral.scan (c :: rest) = scanned at hwidth htext ⊢
  have hdrop : (c :: rest).drop scanned.1.width = scanned.2 := by
    rw [← htext, ← Numeral.length_text, List.drop_left]
  obtain ⟨further, hfurther⟩ := Nat.exists_eq_succ_of_ne_zero (Nat.ne_of_gt hwidth)
  rw [hfurther] at hdrop ⊢
  exact hdrop

theorem tokens?_number {c : Char} {rest : List Char} (h : c.isDigit || c == '.') :
    tokens? scientific (c :: rest) =
      let scanned := Numeral.scan (c :: rest)
      if scanned.2.head? = some '.' ∨ scanned.1.isEmpty then none
      else (tokens? scientific scanned.2).map (.number (scanned.1.toFloat false) :: ·) := by
  have hblank : ¬ Text.isBlank c := by
    simp [isBlank_of_startsLiteral (by simpa using h)]
  rw [tokens?_cons, lexeme, if_neg hblank, if_pos h]
  simp only
  by_cases hpoint : (Numeral.scan (c :: rest)).2.head? = some '.'
  · rw [if_pos hpoint, if_pos (Or.inl hpoint)]
    rfl
  by_cases hempty : (Numeral.scan (c :: rest)).1.isEmpty
  · rw [if_neg hpoint, if_pos hempty, if_pos (Or.inr hempty)]
    rfl
  · rw [if_neg hpoint, if_neg hempty, if_neg (not_or.mpr ⟨hpoint, hempty⟩)]
    simp only [Except.toOption, Option.bind_some, drop_scan (Bool.not_eq_true _ ▸ hempty)]
    rfl

/-- A text is read piece by piece. -/
theorem tokens?_eq_bind (c : Char) (rest : List Char) :
    tokens? scientific (c :: rest) =
      (firstPiece? scientific (c :: rest)).bind fun found =>
        (tokens? scientific found.2).map (found.1.tokens ++ ·) := by
  simp only [firstPiece?]
  by_cases hblank : Text.isBlank c
  · rw [if_pos hblank, tokens?_cons, lexeme, if_pos hblank]
    rfl
  rw [if_neg hblank]
  by_cases hdigit : c.isDigit || c == '.'
  · rw [if_pos hdigit, tokens?_number hdigit]
    simp only
    split <;> rfl
  rw [if_neg hdigit]
  by_cases halpha : c.isAlpha
  · rw [if_pos halpha, tokens?_letter halpha, Option.bind_map]
    rfl
  · rw [if_neg halpha, tokens?_cons, lexeme, if_neg hblank, if_neg hdigit, if_neg halpha]
    cases hsymbol : symbol? c rest <;> rfl

theorem tokens?_eq_some_iff {cs : List Char} {tokens : List Token} :
    tokens? scientific cs = some tokens ↔
      ∃ pieces, Splits scientific cs pieces ∧ pieces.flatMap Piece.tokens = tokens := by
  induction hlength : cs.length using Nat.strongRecOn generalizing cs tokens with
  | ind n ih =>
      cases cs with
      | nil => simp [splits_empty, eq_comm]
      | cons c rest =>
          rw [tokens?_eq_bind, Option.bind_eq_some_iff]
          constructor
          · rintro ⟨⟨piece, after⟩, hfirst, hmap⟩
            obtain ⟨later, hafter, rfl⟩ := Option.map_eq_some_iff.mp hmap
            have hshorter := length_lt_of_firstPiece? hfirst
            obtain ⟨pieces, hpieces, rfl⟩ := (ih after.length (hlength ▸ hshorter) rfl).mp hafter
            exact ⟨piece :: pieces, splits_cons_iff_firstPiece?.mpr ⟨after, hfirst, hpieces⟩, rfl⟩
          · rintro ⟨pieces, hpieces, rfl⟩
            cases pieces with
            | nil => cases splits_nil.mp hpieces
            | cons piece pieces =>
                obtain ⟨after, hfirst, hpieces⟩ := splits_cons_iff_firstPiece?.mp hpieces
                have hshorter := length_lt_of_firstPiece? hfirst
                have hafter := (ih after.length (hlength ▸ hshorter) rfl).mpr ⟨pieces, hpieces, rfl⟩
                exact ⟨(piece, after), hfirst, by rw [hafter]; rfl⟩

theorem tokenize_eq_ok_iff {text : String} {tokens : List Token} :
    tokenize scientific text = .ok tokens ↔
      ∃ pieces, Splits scientific text.toList pieces ∧
        pieces.flatMap Piece.tokens = tokens := by
  rw [← tokens?_eq_some_iff, tokens?, tokenize]
  cases tokensFrom scientific 0 text.toList <;> simp [Except.toOption]

/-- A text is accepted just if it can be cut into pieces, which is possible in one way at most, and
its tokens are those of the pieces. Every other text has a syntax error. -/
theorem tokenize_accepts_pieces (scientific : Bool) (text : String) :
    (∀ tokens, tokenize scientific text = .ok tokens ↔
        ∃ pieces, Splits scientific text.toList pieces ∧
          pieces.flatMap Piece.tokens = tokens) ∧
      (∀ pieces pieces', Splits scientific text.toList pieces →
        Splits scientific text.toList pieces' → pieces = pieces') ∧
      ((¬ ∃ pieces, Splits scientific text.toList pieces) →
        ∃ fault, tokenize scientific text = .error fault ∧ (Fault.lexical fault).isSyntax) := by
  refine ⟨fun tokens => tokenize_eq_ok_iff, fun pieces pieces' h h' => h.unique h', ?_⟩
  intro hnone
  cases hread : tokenize scientific text with
  | error fault => exact ⟨fault, rfl, rfl⟩
  | ok tokens =>
      obtain ⟨pieces, hpieces, -⟩ := tokenize_eq_ok_iff.mp hread
      exact absurd ⟨pieces, hpieces⟩ hnone

end PocketCalculator.Proofs.LexicalReading

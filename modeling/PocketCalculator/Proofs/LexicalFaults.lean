import PocketCalculator.Proofs.LexicalReading

namespace PocketCalculator.Proofs.LexicalFaults

open PocketCalculator.Calculation
open PocketCalculator.Decimal (Numeral)
open PocketCalculator.Proofs.Characters
open PocketCalculator.Proofs.LexicalGrammar
open PocketCalculator.Proofs.LexicalReading

/-- What numbers are written with. -/
def isNumeric (c : Char) : Bool := c.isDigit || c == '.'

theorem isNumeric_iff {c : Char} : isNumeric c ↔ c.isDigit ∨ c = '.' := by
  simp [isNumeric]

/-- The text between the two others is all of one class, and as long as it can be on both sides. -/
structure IsRun (p : Char → Bool) (before run after : List Char) : Prop where
  mem : ∀ c ∈ run, p c
  start : ∀ c ∈ before.getLast?, p c = false
  stop : ∀ c ∈ after.head?, p c = false

/-- The word is a sequence of keywords. -/
def IsKeywords (scientific : Bool) (word : List Char) : Prop :=
  ∃ entries : List (List Char × Token), (∀ entry ∈ entries, entry ∈ keywords scientific) ∧
    entries.flatMap Prod.fst = word

/-- What stands at the place of a fault, behind the text that could be read:

* a character that no lexeme starts with, nor a word;
* a run of digits and points that has a second point;
* a point without a digit or another point next to it;
* a run of letters that is no sequence of keywords, not even with those that are switched off;
* a run of letters with a function that is switched off behind some keywords. -/
inductive StandsAt (scientific : Bool) (before : List Char) : LexicalFault → List Char → Prop where
  | unexpectedCharacter {c : Char} {rest : List Char} :
      (∀ piece : Piece, piece.Valid true → piece.text.head? ≠ some c) → c.isAlpha = false →
        StandsAt scientific before (.unexpectedCharacter c before.length) (c :: rest)
  | secondPoint {whole fraction more after : List Char} :
      (∀ c ∈ whole, c.isDigit) → (∀ c ∈ fraction, c.isDigit) →
      IsRun isNumeric before (whole ++ '.' :: (fraction ++ '.' :: more)) after →
        StandsAt scientific before (.secondPoint before.length)
          (whole ++ '.' :: (fraction ++ '.' :: more) ++ after)
  | lonePoint {after : List Char} : IsRun isNumeric before ['.'] after →
      StandsAt scientific before .lonePoint ('.' :: after)
  | unknownIdentifier {word after : List Char} : word ≠ [] →
      IsRun Char.isAlpha before word after → ¬ IsKeywords true word →
        StandsAt scientific before (.unknownIdentifier word before.length) (word ++ after)
  | unknownFunction {f : MathFunction} {known more after : List Char} : scientific = false →
      f.isScientific → IsKeywords false known →
      IsRun Char.isAlpha before (known ++ (f.name.toList ++ more)) after →
        StandsAt scientific before (.unknownFunction f)
          (known ++ (f.name.toList ++ more) ++ after)

variable {scientific : Bool}

theorem isKeywords_nil : IsKeywords scientific [] := ⟨[], nofun, rfl⟩

theorem IsKeywords.keyword {word rest : List Char} {token : Token}
    (hword : (word, token) ∈ keywords scientific) (h : IsKeywords scientific rest) :
    IsKeywords scientific (word ++ rest) := by
  obtain ⟨entries, hentries, rfl⟩ := h
  exact ⟨(word, token) :: entries, List.forall_mem_cons.mpr ⟨hword, hentries⟩, rfl⟩

theorem IsKeywords.exists_tokens {word : List Char} (h : IsKeywords scientific word)
    (unknown : LexicalFault) : ∃ tokens, splitLetters scientific unknown word = .ok tokens := by
  obtain ⟨entries, hentries, rfl⟩ := h
  induction entries with
  | nil => exact ⟨[], by rw [List.flatMap_nil, splitLetters]⟩
  | cons entry entries ih =>
      obtain ⟨hentry, hrest⟩ := List.forall_mem_cons.mp hentries
      obtain ⟨tokens, htokens⟩ := ih hrest
      refine ⟨entry.2 :: tokens, ?_⟩
      rw [List.flatMap_cons, splitLetters_keyword hentry, htokens]
      rfl

/-- Why a word is refused: it is not known even with all keywords, or it has a function that is
switched off behind some keywords. -/
inductive Refused (scientific : Bool) (unknown : LexicalFault) (word : List Char) :
    LexicalFault → Prop where
  | unknown : splitLetters true unknown word = .error unknown →
      Refused scientific unknown word unknown
  | function {f : MathFunction} {known more : List Char} : scientific = false →
      f.isScientific → IsKeywords false known → known ++ (f.name.toList ++ more) = word →
        Refused scientific unknown word (.unknownFunction f)

theorem Refused.keyword {word rest : List Char} {token : Token} {unknown fault : LexicalFault}
    (hword : (word, token) ∈ keywords scientific) (h : Refused scientific unknown rest fault) :
    Refused scientific unknown (word ++ rest) fault := by
  cases h with
  | unknown hunknown =>
      apply Refused.unknown
      rw [splitLetters_keyword (mem_keywords_true hword), hunknown]
      rfl
  | function hoff hf hknown heq =>
      subst hoff
      exact .function rfl hf (hknown.keyword hword) (by rw [List.append_assoc, heq])

theorem eq_error_of_map {ε α β : Type} {x : Except ε α} {f : α → β} {fault : ε}
    (h : x.map f = .error fault) : x = .error fault := by
  cases x with
  | ok a => cases h
  | error e =>
      cases h
      rfl

theorem refused_of_map {word rest : List Char} {token : Token} {unknown fault : LexicalFault}
    (hword : (word, token) ∈ keywords scientific)
    (hrest : splitLetters scientific unknown rest = .error fault →
      Refused scientific unknown rest fault)
    (h : (splitLetters scientific unknown rest).map (token :: ·) = .error fault) :
    Refused scientific unknown (word ++ rest) fault :=
  (hrest (eq_error_of_map h)).keyword hword

theorem refused_of_function (f : MathFunction) (hoff : ¬ scientific = true)
    (hf : f.isScientific) (unknown : LexicalFault) (rest : List Char) :
    Refused scientific unknown (f.name.toList ++ rest) (.unknownFunction f) :=
  .function (by simpa using hoff) hf isKeywords_nil rfl

theorem refused_of_splitLetters {unknown fault : LexicalFault} {word : List Char}
    (h : splitLetters scientific unknown word = .error fault) :
    Refused scientific unknown word fault := by
  fun_induction splitLetters scientific unknown word with
  | case1 => cases h
  | case2 rest ih =>
      have hword : (['s', 'q', 'r', 't'], Token.function .sqrt) ∈ keywords scientific := by
        simp [mem_keywords]
      exact refused_of_map hword ih h
  | case3 rest hon ih =>
      have hword : (['s', 'i', 'n'], Token.function .sin) ∈ keywords scientific := by
        simp [mem_keywords, hon]
      exact refused_of_map hword ih h
  | case4 rest hoff =>
      cases h
      exact refused_of_function .sin hoff rfl unknown rest
  | case5 rest hon ih =>
      have hword : (['c', 'o', 's'], Token.function .cos) ∈ keywords scientific := by
        simp [mem_keywords, hon]
      exact refused_of_map hword ih h
  | case6 rest hoff =>
      cases h
      exact refused_of_function .cos hoff rfl unknown rest
  | case7 rest hon ih =>
      have hword : (['t', 'a', 'n'], Token.function .tan) ∈ keywords scientific := by
        simp [mem_keywords, hon]
      exact refused_of_map hword ih h
  | case8 rest hoff =>
      cases h
      exact refused_of_function .tan hoff rfl unknown rest
  | case9 rest hon ih =>
      have hword : (['l', 'o', 'g'], Token.function .log) ∈ keywords scientific := by
        simp [mem_keywords, hon]
      exact refused_of_map hword ih h
  | case10 rest hoff =>
      cases h
      exact refused_of_function .log hoff rfl unknown rest
  | case11 rest ih =>
      have hword : (['M', 'o', 'd'], Token.modulo) ∈ keywords scientific := by
        simp [mem_keywords]
      exact refused_of_map hword ih h
  | case12 rest ih =>
      have hword : (['e'], Token.euler) ∈ keywords scientific := by
        simp [mem_keywords]
      exact refused_of_map hword ih h
  | case13 word =>
      cases h
      apply Refused.unknown
      unfold splitLetters
      split <;> simp_all

/-- What the first lexeme of a text comes to. -/
inductive LexemeOutcome (scientific : Bool) (position : Nat) (c : Char) (rest : List Char) :
    Except LexicalFault (List Token × Nat) → Prop where
  | blank : Text.isBlank c → LexemeOutcome scientific position c rest (.ok ([], 0))
  | number : (Numeral.scan (c :: rest)).2.head? ≠ some '.' →
      (Numeral.scan (c :: rest)).1.isEmpty = false →
        LexemeOutcome scientific position c rest
          (.ok ([.number ((Numeral.scan (c :: rest)).1.toFloat false)],
            (Numeral.scan (c :: rest)).1.width - 1))
  | secondPoint : (Numeral.scan (c :: rest)).2.head? = some '.' →
      LexemeOutcome scientific position c rest (.error (.secondPoint position))
  | lonePoint : isNumeric c → (Numeral.scan (c :: rest)).2.head? ≠ some '.' →
      (Numeral.scan (c :: rest)).1.isEmpty →
        LexemeOutcome scientific position c rest (.error .lonePoint)
  | word {tokens : List Token} : c.isAlpha →
      splitLetters scientific
          (.unknownIdentifier ((c :: rest).takeWhile Char.isAlpha) position)
          ((c :: rest).takeWhile Char.isAlpha) = .ok tokens →
        LexemeOutcome scientific position c rest
          (.ok (tokens, (rest.takeWhile Char.isAlpha).length))
  | refusedWord {fault : LexicalFault} : c.isAlpha →
      splitLetters scientific
          (.unknownIdentifier ((c :: rest).takeWhile Char.isAlpha) position)
          ((c :: rest).takeWhile Char.isAlpha) = .error fault →
        LexemeOutcome scientific position c rest (.error fault)
  | symbol {token : Token} {further : Nat} : symbol? c rest = some (token, further) →
      LexemeOutcome scientific position c rest (.ok ([token], further))
  | unexpected : ¬ Text.isBlank c → ¬ isNumeric c → ¬ c.isAlpha → symbol? c rest = none →
      LexemeOutcome scientific position c rest (.error (.unexpectedCharacter c position))

theorem lexeme_outcome (scientific : Bool) (position : Nat) (c : Char) (rest : List Char) :
    LexemeOutcome scientific position c rest (lexeme scientific position c rest) := by
  by_cases hblank : Text.isBlank c
  · rw [lexeme, if_pos hblank]
    exact .blank hblank
  by_cases hnumeric : c.isDigit || c == '.'
  · rw [lexeme, if_neg hblank, if_pos hnumeric]
    simp only
    split
    · exact .secondPoint ‹_›
    split
    · exact .lonePoint hnumeric ‹_› ‹_›
    · exact .number ‹_› (Bool.not_eq_true _ ▸ ‹_›)
  by_cases halpha : c.isAlpha
  · rw [lexeme_letter position rest halpha]
    cases hread : splitLetters scientific
        (.unknownIdentifier ((c :: rest).takeWhile Char.isAlpha) position)
        ((c :: rest).takeWhile Char.isAlpha) with
    | error fault => exact .refusedWord halpha hread
    | ok tokens => exact .word halpha hread
  · rw [lexeme, if_neg hblank, if_neg hnumeric, if_neg halpha]
    cases hsymbol : symbol? c rest with
    | none => exact .unexpected hblank hnumeric halpha hsymbol
    | some found => exact .symbol hsymbol

/-- No run of the class goes on from the one text into the other. -/
def Apart (p : Char → Bool) (before after : List Char) : Prop :=
  ∀ c ∈ before.getLast?, p c → ∀ d ∈ after.head?, p d = false

theorem apart_of_notMem {p : Char → Bool} {before : List Char} (h : ∀ c ∈ before, p c = false)
    (after : List Char) : Apart p before after := by
  intro c hc hclass
  rw [h c (List.mem_of_mem_getLast? hc)] at hclass
  cases hclass

theorem Apart.append {p : Char → Bool} {first before after : List Char}
    (hfirst : Apart p first (before ++ after)) (h : Apart p before after) :
    Apart p (first ++ before) after := by
  cases before with
  | nil => rwa [List.append_nil]
  | cons b before =>
      intro c hc
      rw [List.getLast?_append_of_ne_nil _ (List.cons_ne_nil b before)] at hc
      exact h c hc

/-- The first text is a whole lexeme, with the given tokens, in front of the other. -/
structure IsLexeme (scientific : Bool) (first : List Char) (tokens : List Token)
    (after : List Char) : Prop where
  read : ∀ later, later <+: after →
    tokens? scientific (first ++ later) = (tokens? scientific later).map (tokens ++ ·)
  number : Apart isNumeric first after
  word : Apart Char.isAlpha first after

theorem endsAt_of_isPrefix {piece : Piece} {after later : List Char} (h : piece.EndsAt after)
    (hlater : later <+: after) : piece.EndsAt later := by
  cases later with
  | nil =>
      unfold Piece.EndsAt
      split <;> simp
  | cons c later =>
      obtain ⟨more, rfl⟩ := hlater
      unfold Piece.EndsAt at h ⊢
      split <;> simp_all

theorem tokens?_piece {piece : Piece} {rest : List Char} (hvalid : piece.Valid scientific)
    (hends : piece.EndsAt rest) :
    tokens? scientific (piece.text ++ rest) =
      (tokens? scientific rest).map (piece.tokens ++ ·) := by
  have hfirst := firstPiece?_complete hvalid hends
  obtain ⟨c, tail, htext⟩ := Piece.exists_text hvalid
  rw [htext, List.cons_append] at hfirst ⊢
  rw [tokens?_eq_bind, hfirst, Option.bind_some]

theorem isNumeric_of_isBlank {c : Char} (h : Text.isBlank c) : isNumeric c = false := by
  rw [← Bool.not_eq_true, isNumeric_iff]
  intro hnumeric
  rw [isBlank_of_startsLiteral hnumeric] at h
  cases h

theorem isNumeric_of_mem_lexemes {spelling : List Char} {token : Token}
    (h : (spelling, token) ∈ lexemes scientific) : ∀ c ∈ spelling, isNumeric c = false := by
  intro c hc
  rw [← Bool.not_eq_true, isNumeric_iff]
  exact not_startsLiteral_of_mem_lexemes h hc

theorem isLexeme_piece (piece : Piece) {after : List Char} (hvalid : piece.Valid scientific)
    (hends : piece.EndsAt after) (halpha : ∀ c ∈ piece.text, c.isAlpha = false) :
    IsLexeme scientific piece.text piece.tokens after := by
  refine ⟨?_, ?_, apart_of_notMem halpha after⟩
  · intro later hlater
    exact tokens?_piece hvalid (endsAt_of_isPrefix hends hlater)
  · cases piece with
    | blank c =>
        apply apart_of_notMem
        simpa [Piece.text] using isNumeric_of_isBlank hvalid
    | literal numeral =>
        intro c _ _ d hd
        simpa [isNumeric] using hends d hd
    | fixed spelling token => exact apart_of_notMem (isNumeric_of_mem_lexemes hvalid) after

theorem isLexeme_word {word after : List Char} {tokens : List Token} {unknown : LexicalFault}
    (hword : ∀ c ∈ word, c.isAlpha) (hafter : ∀ c ∈ after.head?, c.isAlpha = false)
    (hread : splitLetters scientific unknown word = .ok tokens) :
    IsLexeme scientific word tokens after := by
  refine ⟨?_, ?_, fun _ _ _ => hafter⟩
  · rintro later ⟨more, rfl⟩
    have hlater : ∀ c ∈ later.head?, c.isAlpha = false := by
      intro c hc
      apply hafter c
      rw [List.head?_append, Option.mem_def.mp hc]
      rfl
    obtain ⟨htake, hdrop⟩ := takeWhile_append_of_ends hword hlater
    rw [tokens?_letters unknown, htake, hdrop, hread]
    rfl
  · apply apart_of_notMem
    intro c hc
    exact (letter_classes (hword c hc)).2

theorem isAlpha_of_isNumeric {c : Char} (h : isNumeric c) : c.isAlpha = false := by
  rw [← Bool.not_eq_true]
  intro halpha
  rw [isNumeric, (letter_classes halpha).2] at h
  cases h

theorem isLexeme_of_scan {c : Char} {rest : List Char}
    (hempty : (Numeral.scan (c :: rest)).1.isEmpty = false)
    (hpoint : (Numeral.scan (c :: rest)).2.head? ≠ some '.') :
    let numeral := (Numeral.scan (c :: rest)).1
    numeral.width - 1 ≤ rest.length ∧
      IsLexeme scientific (c :: rest.take (numeral.width - 1)) [.number (numeral.toFloat false)]
        (rest.drop (numeral.width - 1)) := by
  intro numeral
  obtain ⟨hliteral, hends⟩ := isLiteral_scan hempty hpoint
  have hwidth : numeral.width - 1 + 1 = numeral.width := Nat.sub_add_cancel (width_pos hempty)
  have hscan : numeral.text ++ (Numeral.scan (c :: rest)).2 = c :: rest := Numeral.text_scan _
  have htext : c :: rest.take (numeral.width - 1) = numeral.text := by
    rw [← List.take_succ_cons, hwidth, ← Numeral.length_text, ← hscan, List.take_left]
  constructor
  · have hlength := congrArg List.length hscan
    rw [List.length_append, Numeral.length_text, List.length_cons] at hlength
    omega
  · rw [htext, drop_scan hempty]
    apply isLexeme_piece (.literal numeral) hliteral hends
    intro d hd
    exact isAlpha_of_isNumeric (isNumeric_iff.mpr (hliteral.of_mem_text hd))

theorem isLexeme_of_symbol {c : Char} {rest : List Char} {token : Token} {further : Nat}
    (h : symbol? c rest = some (token, further)) :
    further ≤ rest.length ∧
      IsLexeme scientific (c :: rest.take further) [token] (rest.drop further) := by
  have hall : ∀ symbol ∈ symbols, symbol.1.any Char.isAlpha = false := by
    decide
  obtain ⟨hmem, hends⟩ := symbol?_eq_some h
  constructor
  · unfold symbol? at h
    split at h
    case h_4 =>
      split at h
      · rename_i hstar
        obtain ⟨after, rfl⟩ := List.head?_eq_some_iff.mp hstar
        cases h
        exact Nat.succ_le_succ (Nat.zero_le _)
      · cases h
        exact Nat.zero_le _
    case h_14 => cases h
    all_goals
      cases h
      exact Nat.zero_le _
  · refine isLexeme_piece (.fixed _ token) (List.mem_append_left _ hmem) hends ?_
    simpa [Piece.text] using hall _ hmem

theorem isLexeme_blank {c : Char} (h : Text.isBlank c) (after : List Char) :
    IsLexeme scientific [c] [] after := by
  refine isLexeme_piece (.blank c) h trivial ?_
  intro d hd
  obtain rfl := List.mem_singleton.mp hd
  rw [← Bool.not_eq_true]
  intro halpha
  rw [(letter_classes halpha).1] at h
  cases h

theorem isLexeme_of_letters {c : Char} {rest : List Char} {tokens : List Token}
    {unknown : LexicalFault} (halpha : c.isAlpha)
    (hread : splitLetters scientific unknown ((c :: rest).takeWhile Char.isAlpha) = .ok tokens) :
    let further := (rest.takeWhile Char.isAlpha).length
    further ≤ rest.length ∧
      IsLexeme scientific (c :: rest.take further) tokens (rest.drop further) := by
  intro further
  have hrun := List.takeWhile_prefix (l := rest) Char.isAlpha
  rw [← List.prefix_iff_eq_take.mp hrun, drop_length_takeWhile]
  rw [List.takeWhile_cons_of_pos halpha] at hread
  refine ⟨hrun.length_le, isLexeme_word ?_ ?_ hread⟩
  · intro d hd
    rcases List.mem_cons.mp hd with rfl | hd
    · exact halpha
    · exact List.mem_takeWhile_imp hd
  · exact eq_false_of_head?_dropWhile Char.isAlpha rest

/-- A lexeme that can be read is read the same way if the text ends sooner behind it. -/
theorem isLexeme_of_lexeme {position : Nat} {c : Char} {rest : List Char} {tokens : List Token}
    {further : Nat} (h : lexeme scientific position c rest = .ok (tokens, further)) :
    further ≤ rest.length ∧
      IsLexeme scientific (c :: rest.take further) tokens (rest.drop further) := by
  have houtcome := lexeme_outcome scientific position c rest
  rw [h] at houtcome
  cases houtcome with
  | blank hblank => exact ⟨Nat.zero_le _, isLexeme_blank hblank rest⟩
  | number hpoint hempty => exact isLexeme_of_scan hempty hpoint
  | word halpha hread => exact isLexeme_of_letters halpha hread
  | symbol hsymbol => exact isLexeme_of_symbol hsymbol

theorem isRun_of_apart {p : Char → Bool} {before run after : List Char} (hrun : ∀ c ∈ run, p c)
    (hne : run ≠ []) (hstop : ∀ c ∈ after.head?, p c = false)
    (h : Apart p before (run ++ after)) : IsRun p before run after := by
  refine ⟨hrun, ?_, hstop⟩
  intro c hc
  rw [← Bool.not_eq_true]
  intro hclass
  obtain ⟨d, tail, rfl⟩ := List.exists_cons_of_ne_nil hne
  have hd := hrun d List.mem_cons_self
  rw [h c hc hclass d rfl] at hd
  cases hd

theorem head?_ne_of_symbol? {c : Char} {rest : List Char} (h : symbol? c rest = none) :
    ∀ symbol ∈ symbols, symbol.1.head? ≠ some c := by
  unfold symbol? at h
  split at h
  case h_4 => split at h <;> cases h
  case h_14 => simp_all [symbols, eq_comm]
  all_goals cases h

theorem standsAt_unexpected {before rest : List Char} {c : Char}
    (hblank : ¬ Text.isBlank c) (hnumeric : ¬ isNumeric c) (halpha : ¬ c.isAlpha)
    (h : symbol? c rest = none) :
    StandsAt scientific before (.unexpectedCharacter c before.length) (c :: rest) := by
  refine .unexpectedCharacter ?_ (by simpa using halpha)
  intro piece hvalid hhead
  cases piece with
  | blank b =>
      obtain rfl := Option.some.inj hhead
      exact hblank hvalid
  | literal numeral =>
      obtain ⟨d, tail, htext, hstart⟩ := IsLiteral.exists_text hvalid
      rw [Piece.text, htext] at hhead
      obtain rfl := Option.some.inj hhead
      exact hnumeric (isNumeric_iff.mpr hstart)
  | fixed spelling token =>
      rcases List.mem_append.mp hvalid with hmem | hmem
      · exact head?_ne_of_symbol? h _ hmem hhead
      · exact halpha (isAlpha_of_mem_keywords hmem c (List.mem_of_mem_head? hhead))

theorem exists_secondPoint {cs : List Char} (h : (Numeral.scan cs).2.head? = some '.') :
    ∃ whole fraction rest, whole ++ '.' :: (fraction ++ '.' :: rest) = cs ∧
      (∀ c ∈ whole, c.isDigit) ∧ ∀ c ∈ fraction, c.isDigit := by
  -- Without a first point what is scanned would go on with this one.
  have hfirst : (cs.dropWhile Char.isDigit).head? = some '.' := by
    by_contra hfirst
    rw [scan_of_ne_point hfirst] at h
    exact hfirst h
  obtain ⟨later, hlater⟩ := List.head?_eq_some_iff.mp hfirst
  rw [scan_of_point hlater] at h
  obtain ⟨rest, hrest⟩ := List.head?_eq_some_iff.mp h
  refine ⟨cs.takeWhile Char.isDigit, later.takeWhile Char.isDigit, rest, ?_, ?_, ?_⟩
  · rw [← hrest, List.takeWhile_append_dropWhile, ← hlater, List.takeWhile_append_dropWhile]
  · exact fun c hc => List.mem_takeWhile_imp hc
  · exact fun c hc => List.mem_takeWhile_imp hc

theorem standsAt_secondPoint {before cs : List Char} (hapart : Apart isNumeric before cs)
    (h : (Numeral.scan cs).2.head? = some '.') :
    StandsAt scientific before (.secondPoint before.length) cs := by
  obtain ⟨whole, fraction, rest, rfl, hwhole, hfraction⟩ := exists_secondPoint h
  have htext : whole ++ '.' :: (fraction ++ '.' :: rest) =
      whole ++ '.' :: (fraction ++ '.' :: rest.takeWhile isNumeric) ++
        rest.dropWhile isNumeric := by
    simp [List.takeWhile_append_dropWhile]
  rw [htext] at hapart ⊢
  refine .secondPoint hwhole hfraction (isRun_of_apart ?_ (by simp)
    (eq_false_of_head?_dropWhile isNumeric rest) hapart)
  intro c hc
  rw [isNumeric_iff]
  simp only [List.mem_append, List.mem_cons] at hc
  rcases hc with hc | rfl | hc | rfl | hc
  · exact Or.inl (hwhole c hc)
  · exact Or.inr rfl
  · exact Or.inl (hfraction c hc)
  · exact Or.inr rfl
  · exact isNumeric_iff.mp (List.mem_takeWhile_imp hc)

theorem standsAt_lonePoint {before rest : List Char} {c : Char}
    (hapart : Apart isNumeric before (c :: rest)) (hnumeric : isNumeric c)
    (hpoint : (Numeral.scan (c :: rest)).2.head? ≠ some '.')
    (hempty : (Numeral.scan (c :: rest)).1.isEmpty) :
    StandsAt scientific before .lonePoint (c :: rest) := by
  rcases isNumeric_iff.mp hnumeric with hdigit | rfl
  · rw [Numeral.isEmpty, whole_scan, List.takeWhile_cons_of_pos hdigit] at hempty
    cases hempty
  have hstart : ('.' :: rest).dropWhile Char.isDigit = '.' :: rest := rfl
  rw [scan_of_point hstart] at hpoint hempty
  have hfraction : rest.takeWhile Char.isDigit = [] := by
    simpa [Numeral.isEmpty] using hempty
  have hrest : rest.dropWhile Char.isDigit = rest := by
    simpa [hfraction] using List.takeWhile_append_dropWhile (p := Char.isDigit) (l := rest)
  refine .lonePoint (isRun_of_apart (by simp [isNumeric]) (List.cons_ne_nil _ _) ?_ hapart)
  intro d hd
  rw [← Bool.not_eq_true, isNumeric_iff]
  rintro (hdigit | rfl)
  · have hstop := eq_false_of_head?_dropWhile Char.isDigit rest d (by rwa [hrest])
    rw [hdigit] at hstop
    cases hstop
  · exact hpoint (by rwa [hrest])

theorem standsAt_word {before rest : List Char} {c : Char} {fault : LexicalFault}
    (hapart : Apart Char.isAlpha before (c :: rest)) (halpha : c.isAlpha)
    (h : splitLetters scientific
      (.unknownIdentifier ((c :: rest).takeWhile Char.isAlpha) before.length)
      ((c :: rest).takeWhile Char.isAlpha) = .error fault) :
    StandsAt scientific before fault (c :: rest) := by
  have hne : (c :: rest).takeWhile Char.isAlpha ≠ [] := by
    rw [List.takeWhile_cons_of_pos halpha]
    exact List.cons_ne_nil c _
  rw [← List.takeWhile_append_dropWhile (p := Char.isAlpha) (l := c :: rest)] at hapart ⊢
  have hrun := isRun_of_apart (fun d hd => List.mem_takeWhile_imp hd) hne
    (eq_false_of_head?_dropWhile Char.isAlpha (c :: rest)) hapart
  generalize (c :: rest).takeWhile Char.isAlpha = word at hne h hrun ⊢
  cases refused_of_splitLetters h with
  | unknown hunknown =>
      refine .unknownIdentifier hne hrun ?_
      intro hword
      obtain ⟨tokens, htokens⟩ := hword.exists_tokens (.unknownIdentifier word before.length)
      rw [hunknown] at htokens
      cases htokens
  | function hoff hf hknown heq =>
      subst heq
      exact .unknownFunction hoff hf hknown hrun

theorem standsAt_of_lexeme {before rest : List Char} {c : Char} {fault : LexicalFault}
    (hnumber : Apart isNumeric before (c :: rest)) (hword : Apart Char.isAlpha before (c :: rest))
    (h : lexeme scientific before.length c rest = .error fault) :
    StandsAt scientific before fault (c :: rest) := by
  have houtcome := lexeme_outcome scientific before.length c rest
  rw [h] at houtcome
  cases houtcome with
  | secondPoint hpoint => exact standsAt_secondPoint hnumber hpoint
  | lonePoint hnumeric hpoint hempty => exact standsAt_lonePoint hnumber hnumeric hpoint hempty
  | refusedWord halpha hread => exact standsAt_word hword halpha hread
  | unexpected hblank hnumeric halpha hsymbol =>
      exact standsAt_unexpected hblank hnumeric halpha hsymbol

/-- Where the reading stops, the text in front has been read whole. -/
theorem exists_stop {position : Nat} {cs : List Char} {fault : LexicalFault}
    (h : tokensFrom scientific position cs = .error fault) :
    ∃ before c rest, before ++ c :: rest = cs ∧
      (∃ tokens, tokens? scientific before = some tokens) ∧
      Apart isNumeric before (c :: rest) ∧ Apart Char.isAlpha before (c :: rest) ∧
      lexeme scientific (position + before.length) c rest = .error fault := by
  induction hlength : cs.length using Nat.strongRecOn generalizing position cs with
  | ind n ih =>
      cases cs with
      | nil =>
          rw [tokensFrom_nil] at h
          cases h
      | cons c rest =>
          rw [tokensFrom.eq_def] at h
          simp only at h
          cases hfirst : lexeme scientific position c rest with
          | error found =>
              rw [hfirst] at h
              cases h
              exact ⟨[], c, rest, rfl, ⟨[], tokens?_nil⟩, apart_of_notMem (List.forall_mem_nil _) _,
                apart_of_notMem (List.forall_mem_nil _) _, hfirst⟩
          | ok found =>
              obtain ⟨tokens, further⟩ := found
              rw [hfirst] at h
              obtain ⟨hfurther, hlexeme⟩ := isLexeme_of_lexeme hfirst
              have hshorter : (rest.drop further).length < n := by
                simp only [← hlength, List.length_drop, List.length_cons]
                omega
              obtain ⟨before, d, later, hsplit, ⟨more, hmore⟩, hnumber, hword, hfault⟩ :=
                ih _ hshorter (eq_error_of_map h) rfl
              refine ⟨c :: rest.take further ++ before, d, later, ?_, ⟨tokens ++ more, ?_⟩, ?_,
                ?_, ?_⟩
              · rw [List.append_assoc, hsplit, List.cons_append, List.take_append_drop]
              · rw [hlexeme.read before ⟨d :: later, hsplit⟩, hmore]
                rfl
              · exact Apart.append (hsplit ▸ hlexeme.number) hnumber
              · exact Apart.append (hsplit ▸ hlexeme.word) hword
              · rw [← hfault]
                congr 1
                simp only [List.length_append, List.length_cons, List.length_take]
                omega

/-- A text that cannot be read has a fault at its first bad lexeme. The text in front of that place
can be read alone, its length is the position in the message, and what stands there is what the
message says, as far as it goes in both directions. -/
theorem fault_stands_at_first_bad_lexeme (scientific : Bool) (text : String) (fault : LexicalFault)
    (h : tokenize scientific text = .error fault) :
    ∃ before rest, before ++ rest = text.toList ∧ before.length < text.length ∧
      (∃ tokens, tokenize scientific (String.ofList before) = .ok tokens) ∧
      StandsAt scientific before fault rest := by
  obtain ⟨before, c, rest, hsplit, ⟨tokens, htokens⟩, hnumber, hword, hfault⟩ := exists_stop h
  rw [Nat.zero_add] at hfault
  refine ⟨before, c :: rest, hsplit, ?_, ⟨tokens, ?_⟩, standsAt_of_lexeme hnumber hword hfault⟩
  · rw [← String.length_toList, ← hsplit, List.length_append, List.length_cons]
    omega
  · rw [tokenize_eq_ok_iff, String.toList_ofList]
    exact tokens?_eq_some_iff.mp htokens

theorem second_point_behind_power :
    tokenize true "3**.5.25)" = .error (.secondPoint 3) ∧
      ∃ before rest, before ++ rest = "3**.5.25)".toList ∧
        before.length < "3**.5.25)".length ∧
        (∃ tokens, tokenize true (String.ofList before) = .ok tokens) ∧
        StandsAt true before (.secondPoint 3) rest := by
  have hfault : tokenize true "3**.5.25)" = .error (.secondPoint 3) := by decide +kernel
  exact ⟨hfault, fault_stands_at_first_bad_lexeme true "3**.5.25)" (.secondPoint 3) hfault⟩

end PocketCalculator.Proofs.LexicalFaults

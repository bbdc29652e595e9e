import PocketCalculator.Proofs.HeldTexts
import PocketCalculator.Proofs.KeypadTabs

namespace PocketCalculator.Proofs.ReadableBuffers

open PocketCalculator.Calculation
open PocketCalculator.Calculator
open PocketCalculator.Decimal (Numeral signed)
open PocketCalculator.Keypad (calculatorAction calculatorKeys)
open PocketCalculator.Locale
open PocketCalculator.Proofs.Characters (drop_length_takeWhile)
open PocketCalculator.Proofs.DisplayedResult (splits_pieces)
open PocketCalculator.Proofs.HeldTexts
open PocketCalculator.Proofs.KeypadTabs
open PocketCalculator.Proofs.KeySplitting
open PocketCalculator.Proofs.LexicalGrammar
open PocketCalculator.Proofs.LexicalReading
open PocketCalculator.Proofs.TypedExpression

/-- Digits and points in any order, with lexemes among them. A star is on no key. -/
inductive Typable : List Char → Prop where
  | nil : Typable []
  | numeric {c : Char} {rest : List Char} : c.isDigit ∨ c = '.' → Typable rest → Typable (c :: rest)
  | lexeme {spelling : List Char} {token : Token} {rest : List Char} :
      (spelling, token) ∈ lexemes true → '*' ∉ spelling → Typable rest →
        Typable (spelling ++ rest)

/-- A fault in a number: one without digits, or one with a second point. -/
inductive Malformed : LexicalFault → Prop where
  | lonePoint : Malformed .lonePoint
  | secondPoint (position : Nat) : Malformed (.secondPoint position)

theorem Typable.append {cs later : List Char} (h : Typable cs) (hlater : Typable later) :
    Typable (cs ++ later) := by
  induction h with
  | nil => exact hlater
  | numeric hc _ ih => exact .numeric hc ih
  | lexeme hmem hstar _ ih =>
      rw [List.append_assoc]
      exact .lexeme hmem hstar ih

theorem typable_of_splits {text : List Char} {pieces : List Piece} (h : Splits true text pieces)
    (htext : ∀ c ∈ text, Text.isBlank c = false ∧ c ≠ '*') : Typable text := by
  induction pieces generalizing text with
  | nil =>
      obtain rfl := splits_nil.mp h
      exact .nil
  | cons piece pieces ih =>
      obtain ⟨rest, rfl, hvalid, -, hrest⟩ := splits_cons.mp h
      have hlater := ih hrest fun c hc => htext c (List.mem_append_right _ hc)
      cases piece with
      | blank c =>
          have hblank : Text.isBlank c = true := hvalid
          rw [(htext c (by simp [Piece.text])).1] at hblank
          cases hblank
      | literal numeral =>
          have hnumeric : ∀ cs : List Char, (∀ c ∈ cs, c.isDigit ∨ c = '.') →
              Typable (cs ++ rest) := by
            intro cs hcs
            induction cs with
            | nil => exact hlater
            | cons c cs ih =>
                exact .numeric (hcs c List.mem_cons_self)
                  (ih fun d hd => hcs d (List.mem_cons_of_mem c hd))
          exact hnumeric numeral.text fun c hc => IsLiteral.of_mem_text hvalid hc
      | fixed spelling token =>
          exact .lexeme hvalid
            (fun hstar => (htext '*' (List.mem_append_left _ hstar)).2 rfl) hlater

theorem Typable.of_numeric_append {run rest : List Char} (hrun : ∀ c ∈ run, c.isDigit ∨ c = '.')
    (h : Typable (run ++ rest)) : Typable rest := by
  induction run with
  | nil => exact h
  | cons c run ih =>
      have hc := hrun c List.mem_cons_self
      refine ih (fun d hd => hrun d (List.mem_cons_of_mem c hd)) ?_
      rw [List.cons_append] at h
      generalize hcs : c :: (run ++ rest) = cs at h
      cases h with
      | nil => cases hcs
      | numeric _ hrest =>
          obtain ⟨rfl, rfl⟩ := List.cons.inj hcs
          exact hrest
      | lexeme hmem _ _ =>
          obtain ⟨d, tail, rfl, hstart⟩ := exists_text_fixed hmem
          obtain ⟨rfl, -⟩ := List.cons.inj hcs
          rcases hc with hc | rfl
          · simp [startsFixed, hc] at hstart
          · simp [startsFixed] at hstart

theorem exists_symbol {spelling : List Char} {token : Token} (h : (spelling, token) ∈ symbols)
    (hstar : '*' ∉ spelling) :
    ∃ c, spelling = [c] ∧ c.isAlpha = false ∧ ∀ rest, symbol? c rest = some (token, 0) := by
  simp only [symbols, List.mem_cons, Prod.mk.injEq, List.not_mem_nil, or_false] at h
  rcases h with h | h | h | h | h | h | h | h | h | h | h | h | h | h <;> obtain ⟨rfl, rfl⟩ := h
  · exact ⟨'+', rfl, by decide, fun _ => rfl⟩
  · exact ⟨'-', rfl, by decide, fun _ => rfl⟩
  · exact ⟨'−', rfl, by decide, fun _ => rfl⟩
  · simp at hstar
  · simp at hstar
  · exact ⟨'×', rfl, by decide, fun _ => rfl⟩
  · exact ⟨'/', rfl, by decide, fun _ => rfl⟩
  · exact ⟨'÷', rfl, by decide, fun _ => rfl⟩
  · exact ⟨'%', rfl, by decide, fun _ => rfl⟩
  · exact ⟨'^', rfl, by decide, fun _ => rfl⟩
  · exact ⟨'(', rfl, by decide, fun _ => rfl⟩
  · exact ⟨')', rfl, by decide, fun _ => rfl⟩
  · exact ⟨'π', rfl, by decide, fun _ => rfl⟩
  · exact ⟨'√', rfl, by decide, fun _ => rfl⟩

theorem Typable.letters {cs : List Char} (h : Typable cs) (unknown : LexicalFault) :
    (∃ tokens, splitLetters true unknown (cs.takeWhile Char.isAlpha) = .ok tokens) ∧
      Typable (cs.dropWhile Char.isAlpha) := by
  induction h with
  | nil => exact ⟨⟨[], by simp [splitLetters]⟩, .nil⟩
  | @numeric c rest hc hrest _ =>
      have halpha : ¬ c.isAlpha := by
        intro halpha
        have hdigit := (letter_classes halpha).2
        simp_all
      rw [List.takeWhile_cons_of_neg halpha, List.dropWhile_cons_of_neg halpha]
      exact ⟨⟨[], by simp [splitLetters]⟩, .numeric hc hrest⟩
  | @lexeme spelling token rest hmem hstar hrest ih =>
      rcases List.mem_append.mp hmem with hsymbol | hkeyword
      · obtain ⟨c, rfl, halpha, -⟩ := exists_symbol hsymbol hstar
        have halpha : ¬ c.isAlpha := by simp [halpha]
        rw [List.singleton_append, List.takeWhile_cons_of_neg halpha,
          List.dropWhile_cons_of_neg halpha]
        exact ⟨⟨[], by simp [splitLetters]⟩, .lexeme hmem hstar hrest⟩
      · have hword := isAlpha_of_mem_keywords hkeyword
        obtain ⟨⟨tokens, htokens⟩, hlater⟩ := ih
        rw [List.takeWhile_append_of_pos hword, List.dropWhile_append_of_pos hword,
          splitLetters_keyword hkeyword, htokens]
        exact ⟨⟨token :: tokens, rfl⟩, hlater⟩

theorem Typable.start {c : Char} {rest : List Char} (h : Typable (c :: rest)) :
    (c.isDigit ∨ c = '.') ∨ c.isAlpha ∨
      c.isAlpha = false ∧ startsFixed c ∧ Typable rest ∧
        ∃ token, ∀ rest, symbol? c rest = some (token, 0) := by
  generalize hcs : c :: rest = cs at h
  cases h with
  | nil => cases hcs
  | numeric hc hrest =>
      obtain ⟨rfl, rfl⟩ := List.cons.inj hcs
      exact Or.inl hc
  | @lexeme spelling token later hmem hstar hlater =>
      obtain ⟨d, tail, hspelling, hstart⟩ := exists_text_fixed hmem
      right
      rcases List.mem_append.mp hmem with hsymbol | hkeyword
      · right
        obtain ⟨d, rfl, halpha, hread⟩ := exists_symbol hsymbol hstar
        obtain ⟨rfl, -⟩ := List.cons.inj hspelling
        obtain ⟨rfl, rfl⟩ := List.cons.inj hcs
        exact ⟨halpha, hstart, hlater, token, hread⟩
      · left
        have hword := isAlpha_of_mem_keywords hkeyword
        rw [hspelling] at hcs hword
        obtain ⟨rfl, -⟩ := List.cons.inj hcs
        exact hword c List.mem_cons_self

/-- The first lexeme of a typable text can be read and leaves a typable text, unless it is a
malformed number. -/
theorem lexeme_typable {c : Char} {rest : List Char} (h : Typable (c :: rest)) (position : Nat) :
    (∃ fault, lexeme true position c rest = .error fault ∧ Malformed fault) ∨
      ∃ tokens further, lexeme true position c rest = .ok (tokens, further) ∧
        Typable (rest.drop further) := by
  rcases h.start with hc | halpha | ⟨halpha, hstart, hrest, token, hsymbol⟩
  · have hblank : ¬ Text.isBlank c := by simp [isBlank_of_startsLiteral hc]
    have hdigit : (c.isDigit || c == '.') = true := by simpa using hc
    rw [lexeme, if_neg hblank, if_pos hdigit]
    by_cases hpoint : (Numeral.scan (c :: rest)).2.head? = some '.'
    · exact Or.inl ⟨_, if_pos hpoint, .secondPoint position⟩
    by_cases hempty : (Numeral.scan (c :: rest)).1.isEmpty
    · refine Or.inl ⟨.lonePoint, ?_, .lonePoint⟩
      simp only [if_neg hpoint, if_pos hempty]
    · right
      have hempty := Bool.eq_false_of_not_eq_true hempty
      refine ⟨_, _, by simp only [if_neg hpoint, hempty]; rfl, ?_⟩
      rw [drop_scan hempty]
      rw [← Numeral.text_scan (c :: rest)] at h
      exact h.of_numeric_append fun d hd =>
        IsLiteral.of_mem_text (isLiteral_of_scan hempty) hd
  · right
    obtain ⟨⟨tokens, htokens⟩, hlater⟩ :=
      h.letters (.unknownIdentifier ((c :: rest).takeWhile Char.isAlpha) position)
    rw [lexeme_letter position rest halpha, htokens]
    refine ⟨tokens, _, rfl, ?_⟩
    rwa [drop_length_takeWhile, ← List.dropWhile_cons_of_pos halpha]
  · right
    simp only [startsFixed, Bool.and_eq_true, Bool.not_eq_true', bne_iff_ne] at hstart
    obtain ⟨⟨hblank, hdigit⟩, hpoint⟩ := hstart
    refine ⟨[token], 0, ?_, hrest⟩
    simp [lexeme, hblank, hdigit, hpoint, halpha, hsymbol]

theorem tokensFrom_typable {cs : List Char} (h : Typable cs) (position : Nat)
    {fault : LexicalFault} (hfault : tokensFrom true position cs = .error fault) :
    Malformed fault := by
  induction hlength : cs.length using Nat.strongRecOn generalizing position cs with
  | ind n ih =>
      cases cs with
      | nil =>
          rw [tokensFrom_nil] at hfault
          cases hfault
      | cons c rest =>
          rw [tokensFrom.eq_def] at hfault
          rcases lexeme_typable h position with
            ⟨fault', hlexeme, hmalformed⟩ | ⟨tokens, further, hlexeme, hlater⟩
          · simp only [hlexeme] at hfault
            cases hfault
            exact hmalformed
          · simp only [hlexeme] at hfault
            cases hread : tokensFrom true (position + 1 + further) (rest.drop further) with
            | ok later =>
                rw [hread] at hfault
                cases hfault
            | error fault' =>
                rw [hread] at hfault
                cases hfault
                refine ih (rest.drop further).length ?_ hlater _ hread rfl
                simp only [← hlength, List.length_drop, List.length_cons]
                omega

/-- The text is typable. -/
def IsTypable (text : String) : Prop := Typable text.toList

theorem isTypable_append {text text' : String} (h : IsTypable text) (h' : IsTypable text') :
    IsTypable (text ++ text') := by
  rw [IsTypable, String.toList_append]
  exact h.append h'

/-- Whether a text can be read and has no blanks or stars, as the texts on most keys. -/
def readsPlainly (text : String) : Bool :=
  (tokenize true text).toOption.isSome && text.toList.all fun c => !Text.isBlank c && c != '*'

theorem isTypable_of_readsPlainly {text : String} (h : readsPlainly text) : IsTypable text := by
  simp only [readsPlainly, Bool.and_eq_true, List.all_eq_true, Bool.not_eq_true', bne_iff_ne] at h
  obtain ⟨hread, hplain⟩ := h
  cases htokens : tokenize true text with
  | error fault =>
      rw [htokens] at hread
      cases hread
  | ok tokens =>
      obtain ⟨pieces, hpieces, -⟩ := tokenize_eq_ok_iff.mp htokens
      exact typable_of_splits hpieces hplain

theorem ofResults_isTypable : OfResults IsTypable := by
  refine ⟨.nil, fun negative x hx => ?_⟩
  have hpieces := splits_pieces true negative hx
  rw [IsTypable, String.toList_ofList]
  refine typable_of_splits hpieces fun c hc => ?_
  rcases mem_signed hx hc with rfl | hnumeric
  · decide
  · refine ⟨isBlank_of_startsLiteral hnumeric, ?_⟩
    rintro rfl
    revert hnumeric
    decide

theorem isTypable_apply {key : Key} (hliteral : ∀ text, key = .literal text → IsTypable text)
    {buffer : String} (h : IsTypable buffer) : IsTypable (key.apply buffer) := by
  have happend {text : String} (htext : readsPlainly text) : IsTypable (buffer ++ text) :=
    isTypable_append h (isTypable_of_readsPlainly htext)
  have hwrapped {opening closing : String} (hopening : readsPlainly opening)
      (hclosing : readsPlainly closing) : IsTypable (opening ++ buffer ++ closing) :=
    isTypable_append (isTypable_append (isTypable_of_readsPlainly hopening) h)
      (isTypable_of_readsPlainly hclosing)
  cases key with
  | square =>
      rw [Key.apply]
      split
      · exact Typable.nil
      · exact hwrapped (by decide +kernel) (by decide +kernel)
  | power => exact happend (by decide +kernel)
  | reciprocal =>
      rw [Key.apply]
      split
      · exact isTypable_of_readsPlainly (by decide +kernel)
      · exact hwrapped (by decide +kernel) (by decide +kernel)
  | toggleSign =>
      rw [Key.apply]
      split
      · exact isTypable_of_readsPlainly (by decide +kernel)
      · exact hwrapped (by decide +kernel) (by decide +kernel)
  | root => exact happend (by decide +kernel)
  | modulo => exact happend (by decide +kernel)
  | literal text => exact isTypable_append h (hliteral text rfl)

theorem isTypable_literal {key text : String} (hkey : key ∈ calculatorKeys)
    (h : Key.ofText key = .literal text) (haction : key ∉ ["AC", "DEL", "="]) :
    IsTypable text := by
  have hall : ∀ key ∈ calculatorKeys, key ∉ ["AC", "DEL", "="] →
      key ∉ ["x²", "xʸ", "1/x", "+/-", "√", "Mod"] →
        delocalize key = "." ∨ readsPlainly (delocalize key) := by
    decide +kernel
  have hnamed : key ∉ ["x²", "xʸ", "1/x", "+/-", "√", "Mod"] := by
    intro hnamed
    simp only [List.mem_cons, List.not_mem_nil, or_false] at hnamed
    rcases hnamed with rfl | rfl | rfl | rfl | rfl | rfl <;> cases h
  rw [ofText_of_ne hnamed] at h
  cases h
  rcases hall key hkey haction hnamed with hpoint | hread
  · rw [hpoint]
    exact .numeric (Or.inr rfl) .nil
  · exact isTypable_of_readsPlainly hread

/-- The keys of the keypad without the one that deletes, and what else can be done to a keypad but
typing on it. -/
inductive Pressed : Keypad.Action → Prop where
  | key {key : String} : key ∈ calculatorKeys → key ≠ "DEL" → ∀ now, Pressed (.press key now)
  | loadIndex (index : Nat) : Pressed (.calculator (.loadIndex index))
  | clearHistory : Pressed (.calculator .clearHistory)
  | setLanguage (language : Language) : Pressed (.calculator (.setLanguage language))
  | setTab (tab : Tab) : Pressed (.setTab tab)
  | converter (action : Converter.Session.Action) : Pressed (.converter action)

theorem keeps_calculatorAction {key : String} (hkey : key ∈ calculatorKeys) (hne : key ≠ "DEL")
    (now : Nat) : Keeps IsTypable (calculatorAction key now) := by
  by_cases haction : key ∈ ["AC", "DEL", "="]
  · simp only [List.mem_cons, List.not_mem_nil, or_false] at haction
    rcases haction with rfl | rfl | rfl
    · trivial
    · exact absurd rfl hne
    · trivial
  · rw [calculatorAction_of_ne haction]
    intro buffer h
    exact isTypable_apply (fun text htext => isTypable_literal hkey htext haction) h

theorem toCalculator?_press (key : String) (now : Nat) :
    toCalculator? (.calculator, .press key now) = some (calculatorAction key now) := by
  unfold toCalculator? calculatorAction
  split <;> simp_all

theorem keeps_of_pressed {action : Keypad.Action} (h : Pressed action) {tab : Tab}
    {reaching : Session.Action} (hreach : toCalculator? (tab, action) = some reaching) :
    Keeps IsTypable reaching := by
  cases h with
  | key hkey hne now =>
      cases tab with
      | calculator =>
          rw [toCalculator?_press] at hreach
          cases hreach
          exact keeps_calculatorAction hkey hne now
      | converter => cases hreach
  | loadIndex index =>
      cases tab <;> cases hreach <;> trivial
  | clearHistory =>
      cases tab <;> cases hreach <;> trivial
  | setLanguage language =>
      cases tab <;> cases hreach <;> trivial
  | setTab next => cases tab <;> cases hreach
  | converter action => cases tab <;> cases hreach

theorem isTypable_run (settings : Settings) {actions : List Keypad.Action}
    (h : ∀ action ∈ actions, Pressed action) :
    Holds IsTypable ((Keypad.start settings).run actions).calculator :=
  holds_keypad_run ofResults_isTypable settings fun _ action haction _ hreach =>
    keeps_of_pressed (h action haction) hreach

/-- Whatever keys of the keypad are pressed, apart from the one that deletes, and whatever is loaded
from the history meanwhile, the expression can be read, functions included, or a number in it has no
digit or a second point. No other fault is possible. -/
theorem pressed_expression_readable (settings : Settings) (actions : List Keypad.Action)
    (h : ∀ action ∈ actions, Pressed action) :
    let expression := ((Keypad.start settings).run actions).calculator.expression
    (∃ tokens, tokenize true expression = .ok tokens) ∨
      tokenize true expression = .error .lonePoint ∨
        ∃ position, tokenize true expression = .error (.secondPoint position) := by
  intro expression
  have htypable : IsTypable expression := (isTypable_run settings h).expression
  cases hread : tokenize true expression with
  | ok tokens => exact Or.inl ⟨tokens, rfl⟩
  | error fault =>
      right
      cases tokensFrom_typable htypable 0 hread with
      | lonePoint => exact Or.inl rfl
      | secondPoint position => exact Or.inr ⟨position, rfl⟩

/-- Letters and digits that run together across keys, a result that is gone on from, and two
points. -/
def fusedKeys : List Keypad.Action :=
  [.press "0" 0, .press "-" 1, .press "3" 2, .press "=" 3, .press "Mod" 4, .press "e" 5,
    .press "sin(" 6, .press "x²" 7, .calculator (.setLanguage .tamil), .press "." 8,
    .press "2" 9, .press "." 10]

theorem pressed_expression_readable_fused :
    (∀ action ∈ fusedKeys, Pressed action) ∧
      ((Keypad.start {}).run fusedKeys).calculator.expression = "(-3Modesin()^2.2." ∧
      ((∃ tokens, tokenize true ((Keypad.start {}).run fusedKeys).calculator.expression =
          .ok tokens) ∨
        tokenize true ((Keypad.start {}).run fusedKeys).calculator.expression =
          .error .lonePoint ∨
        ∃ position, tokenize true ((Keypad.start {}).run fusedKeys).calculator.expression =
          .error (.secondPoint position)) := by
  have hpressed : ∀ action ∈ fusedKeys, Pressed action := by
    simp only [fusedKeys, List.forall_mem_cons]
    exact ⟨.key (by decide) (by decide) 0, .key (by decide) (by decide) 1,
      .key (by decide) (by decide) 2, .key (by decide) (by decide) 3,
      .key (by decide) (by decide) 4, .key (by decide) (by decide) 5,
      .key (by decide) (by decide) 6, .key (by decide) (by decide) 7, .setLanguage .tamil,
      .key (by decide) (by decide) 8, .key (by decide) (by decide) 9,
      .key (by decide) (by decide) 10, nofun⟩
  exact ⟨hpressed, by decide +kernel, pressed_expression_readable {} fusedKeys hpressed⟩

end PocketCalculator.Proofs.ReadableBuffers

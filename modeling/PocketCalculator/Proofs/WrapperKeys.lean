import PocketCalculator.Proofs.CalculatorDisplay
import PocketCalculator.Proofs.TypedExpression

namespace PocketCalculator.Proofs.WrapperKeys

open PocketCalculator.Calculation
open PocketCalculator.Calculator
open PocketCalculator.Decimal (Numeral)
open PocketCalculator.Proofs.CalculatorDisplay
open PocketCalculator.Proofs.CalculatorRuns
open PocketCalculator.Proofs.DerivationParsing
open PocketCalculator.Proofs.ExpressionGrammar
open PocketCalculator.Proofs.LexicalGrammar
open PocketCalculator.Proofs.LexicalReading
open PocketCalculator.Proofs.TypedExpression

inductive Wrapper where
  | square
  | reciprocal
  | toggleSign
deriving DecidableEq

namespace Wrapper

/-- The text on the key. -/
def text : Wrapper → String
  | square => "x²"
  | reciprocal => "1/x"
  | toggleSign => "+/-"

def key : Wrapper → Key
  | square => .square
  | reciprocal => .reciprocal
  | toggleSign => .toggleSign

/-- What the key makes of a tree. -/
def tree : Wrapper → Tree → Tree
  | square, t => .binary .power t (.number 2)
  | reciprocal, t => .binary .divide (.number 1) t
  | toggleSign, t => .sign .negate t

/-- What the key makes of a derivation. -/
def derivation : Wrapper → Derivation .sum → Derivation .sum
  | square, d =>
    .sum (.product (.unsigned (.raised (.group d) .caret (.unsigned (.plain (.number 2)))))
      .noFactor) .noAddend
  | reciprocal, d =>
    .sum (.product (.unsigned (.plain (.number 1)))
      (.factor (.divide .ascii) (.unsigned (.plain (.group d))) .noFactor)) .noAddend
  | toggleSign, d =>
    .sum (.product (.signed (.minus .ascii) (.unsigned (.plain (.group d)))) .noFactor) .noAddend

theorem ofText_text (wrapper : Wrapper) : Key.ofText wrapper.text = wrapper.key := by
  cases wrapper <;> rfl

theorem isWrapper_key (wrapper : Wrapper) : wrapper.key.isWrapper = true := by
  cases wrapper <;> rfl

theorem tree_derivation (wrapper : Wrapper) (d : Derivation .sum) :
    (wrapper.derivation d).tree = wrapper.tree d.tree := by
  cases wrapper <;> rfl

end Wrapper

/-- The text that a wrapper key takes as its operand. -/
def operand (session : Session) : String :=
  match session.mode with
  | .idle => session.expression
  | .showingResult => session.result
  | .showingError => ""

/-- Presses some wrapper keys, one after the other. -/
def pressAll (session : Session) (wrappers : List Wrapper) : Session :=
  session.run (wrappers.map fun wrapper => .input wrapper.text)

/-- What some wrapper keys make of a tree, one after the other. -/
def wrapAll (tree : Tree) (wrappers : List Wrapper) : Tree :=
  wrappers.foldl (fun tree wrapper => wrapper.tree tree) tree

/-- The text does not have too many tokens, and its phrases are not nested too deeply. -/
def WithinLimits (engine : Engine) (text : String) : Prop :=
  ∀ tokens, tokenize engine.scientific text = .ok tokens →
    tokens.length ≤ maxTokens ∧ ∀ d : Derivation .sum, d.tokens = tokens → d.depth ≤ maxDepth

section

variable {scientific : Bool}

def openPiece : Piece := .fixed ['('] .openParen

def closePiece : Piece := .fixed [')'] .closeParen

theorem splits_fixed (spelling : List Char) (token : Token) {rest : List Char}
    {pieces : List Piece}
    (h : Splits scientific rest pieces) (hmem : (spelling, token) ∈ lexemes scientific)
    (hstar : spelling ≠ ['*']) :
    Splits scientific (spelling ++ rest) (.fixed spelling token :: pieces) := by
  refine splits_cons.mpr ⟨rest, rfl, hmem, ?_, h⟩
  simp [Piece.EndsAt, hstar]

theorem before_closePiece (piece : Piece) : piece.Before closePiece := by
  cases piece with
  | blank c => trivial
  | literal numeral => trivial
  | fixed spelling token =>
      by_cases hstar : spelling = ['*']
      · subst hstar
        simp [Piece.Before, closePiece, Piece.text]
      · simp [Piece.Before, hstar]

theorem splits_closed {text rest : List Char} {pieces more : List Piece}
    (h : Splits scientific text pieces) (hrest : Splits scientific rest more) :
    Splits scientific (text ++ ')' :: rest) (pieces ++ closePiece :: more) := by
  have hclose : Splits scientific (')' :: rest) (closePiece :: more) :=
    splits_fixed [')'] .closeParen hrest (by simp [lexemes, symbols]) (by simp)
  refine ⟨?_, ?_, ?_⟩
  · intro piece hpiece
    rcases List.mem_append.mp hpiece with hpiece | hpiece
    · exact h.valid piece hpiece
    · exact hclose.valid piece hpiece
  · refine List.isChain_append.mpr ⟨h.chain, hclose.chain, ?_⟩
    rintro piece - next ⟨⟩
    exact before_closePiece piece
  · rw [List.flatMap_append, h.text_eq, hclose.text_eq]

theorem splits_group {text rest : List Char} {pieces more : List Piece}
    (h : Splits scientific text pieces) (hrest : Splits scientific rest more) :
    Splits scientific ('(' :: (text ++ ')' :: rest))
      (openPiece :: (pieces ++ closePiece :: more)) :=
  splits_fixed ['('] .openParen (splits_closed h hrest) (by simp [lexemes, symbols]) (by simp)

/-- A digit alone, as a literal. -/
def digit (c : Char) : Numeral := ⟨[c], false, []⟩

theorem isLiteral_digit {c : Char} (h : c.isDigit) : IsLiteral (digit c) :=
  ⟨List.forall_mem_singleton.mpr h, nofun, fun _ => rfl, rfl⟩

theorem splits_digit {c : Char} {rest : List Char} {pieces : List Piece} (hc : c.isDigit)
    (h : Splits scientific rest pieces) (hrest : ∀ d ∈ rest.head?, d.isDigit = false ∧ d ≠ '.') :
    Splits scientific (c :: rest) (.literal (digit c) :: pieces) :=
  splits_cons.mpr ⟨rest, rfl, isLiteral_digit hc, hrest, h⟩

theorem toFloat_one : (digit '1').toFloat false = 1 := by decide +kernel

theorem toFloat_two : (digit '2').toFloat false = 2 := by decide +kernel

theorem tokenize_of_splits {text : String} {cs : List Char} {pieces : List Piece}
    {tokens : List Token} (h : Splits scientific cs pieces) (htext : text.toList = cs)
    (htokens : pieces.flatMap Piece.tokens = tokens) : tokenize scientific text = .ok tokens :=
  tokenize_eq_ok_iff.mpr ⟨pieces, htext ▸ h, htokens⟩

theorem ne_empty_of_tokenize {text : String} {d : Derivation .sum}
    (h : tokenize scientific text = .ok d.tokens) : text ≠ "" := by
  rintro rfl
  obtain ⟨pieces, hpieces, htokens⟩ := tokenize_eq_ok_iff.mp h
  obtain rfl := splits_empty.mp hpieces
  obtain ⟨token, rest, hd, -⟩ := exists_tokens_sum d
  rw [hd] at htokens
  cases htokens

/-- What a wrapper key makes of a text reads as what it makes of the derivation. -/
theorem tokenize_apply (wrapper : Wrapper) {buffer : String} {d : Derivation .sum}
    (h : tokenize scientific buffer = .ok d.tokens) :
    tokenize scientific (wrapper.key.apply buffer) = .ok (wrapper.derivation d).tokens := by
  have hne := ne_empty_of_tokenize h
  obtain ⟨pieces, hpieces, htokens⟩ := tokenize_eq_ok_iff.mp h
  have hend : Splits scientific [] [] := splits_nil.mpr rfl
  cases wrapper with
  | square =>
      have htwo := splits_digit (by decide : '2'.isDigit) hend nofun
      have hpower := splits_fixed ['^'] (.power .caret) htwo
        (by simp [lexemes, symbols]) (by simp)
      refine tokenize_of_splits (splits_group hpieces hpower) ?_ ?_
      · simp [Key.apply, Wrapper.key, hne]
      · simp [openPiece, closePiece, Piece.tokens, htokens, toFloat_two, Wrapper.derivation]
  | reciprocal =>
      have hdivide := splits_fixed ['/'] (.divide .ascii)
        (splits_group hpieces hend) (by simp [lexemes, symbols]) (by simp)
      have hone := splits_digit (by decide : '1'.isDigit) hdivide (by simp)
      refine tokenize_of_splits hone ?_ ?_
      · simp [Key.apply, Wrapper.key, hne]
      · simp [openPiece, closePiece, Piece.tokens, htokens, toFloat_one, Wrapper.derivation,
          Joiner.token]
  | toggleSign =>
      have hminus := splits_fixed ['-'] (.minus .ascii)
        (splits_group hpieces hend) (by simp [lexemes, symbols]) (by simp)
      refine tokenize_of_splits hminus ?_ ?_
      · simp [Key.apply, Wrapper.key, hne]
      · simp [openPiece, closePiece, Piece.tokens, htokens, Wrapper.derivation, Sign.token]

end

theorem withinLimits_iff {engine : Engine} {text : String} {d : Derivation .sum}
    (h : tokenize engine.scientific text = .ok d.tokens) :
    WithinLimits engine text ↔ d.tokens.length ≤ maxTokens ∧ d.depth ≤ maxDepth := by
  constructor
  · intro hlimits
    obtain ⟨hlength, hdepth⟩ := hlimits _ h
    exact ⟨hlength, hdepth d rfl⟩
  · rintro ⟨hlength, hdepth⟩ tokens hread
    obtain rfl := Except.ok.inj (h.symm.trans hread)
    exact ⟨hlength, fun other hother => tokens_injective hother ▸ hdepth⟩

theorem compile_eq_tree_iff {engine : Engine} {text : String} {d : Derivation .sum}
    (h : tokenize engine.scientific text = .ok d.tokens) :
    engine.compile text = .ok d.tree ↔ WithinLimits engine text := by
  rw [withinLimits_iff h, compile_eq_ok_iff]
  constructor
  · rintro ⟨tokens, hread, hparse⟩
    obtain rfl := Except.ok.inj (h.symm.trans hread)
    obtain ⟨-, hlength, other, hother, hdepth, -⟩ := parse_eq_ok_iff.mp hparse
    exact ⟨hlength, tokens_injective hother ▸ hdepth⟩
  · rintro ⟨hlength, hdepth⟩
    obtain ⟨token, rest, htokens, -⟩ := exists_tokens_sum d
    exact ⟨_, h, parse_eq_ok_iff.mpr ⟨by simp [htokens], hlength, d, rfl, hdepth, rfl⟩⟩

theorem exists_derivation_of_compile {engine : Engine} {text : String} {tree : Tree}
    (h : engine.compile text = .ok tree) :
    ∃ d : Derivation .sum, tokenize engine.scientific text = .ok d.tokens ∧ d.tree = tree := by
  obtain ⟨tokens, hread, hparse⟩ := compile_eq_ok_iff.mp h
  obtain ⟨-, -, d, rfl, -, htree⟩ := parse_eq_ok_iff.mp hparse
  exact ⟨d, hread, htree⟩

theorem expression_input {session : Session} {engine : Engine} {d : Derivation .sum}
    (wrapper : Wrapper) (h : tokenize engine.scientific (operand session) = .ok d.tokens) :
    (session.input wrapper.text).expression = wrapper.key.apply (operand session) := by
  have hne := ne_empty_of_tokenize h
  have hwrapper := wrapper.isWrapper_key
  unfold operand at hne ⊢
  cases hmode : session.mode with
  | idle => simp [Session.input, Session.resume, Wrapper.ofText_text, hmode]
  | showingResult => simp [Session.input, Session.resume, Wrapper.ofText_text, hmode, hwrapper]
  | showingError =>
      rw [hmode] at hne
      exact absurd rfl hne

theorem operand_input (session : Session) (text : String) :
    operand (session.input text) = (session.input text).expression := by
  have hmode : (session.input text).mode = .idle := by simp [Session.input, resume_mode]
  simp [operand, hmode]

theorem exists_derivation_pressAll {session : Session} {engine : Engine} {d : Derivation .sum}
    (h : tokenize engine.scientific (operand session) = .ok d.tokens) (wrappers : List Wrapper) :
    ∃ d' : Derivation .sum,
      tokenize engine.scientific (operand (pressAll session wrappers)) = .ok d'.tokens ∧
        d'.tree = wrapAll d.tree wrappers := by
  induction wrappers generalizing session d with
  | nil => exact ⟨d, h, rfl⟩
  | cons wrapper wrappers ih =>
      have hpressed : tokenize engine.scientific (operand (session.input wrapper.text)) =
          .ok (wrapper.derivation d).tokens := by
        rw [operand_input, expression_input wrapper h]
        exact tokenize_apply wrapper h
      obtain ⟨d', hread, htree⟩ := ih hpressed
      refine ⟨d', hread, ?_⟩
      rw [htree, wrapper.tree_derivation]
      rfl

theorem operand_pressAll (session : Session) {wrappers : List Wrapper} (h : wrappers ≠ []) :
    operand (pressAll session wrappers) = (pressAll session wrappers).expression := by
  obtain rfl | ⟨before, last, rfl⟩ := List.eq_nil_or_concat' wrappers
  · exact absurd rfl h
  · simp only [pressAll, List.map_append, List.map_singleton, run_append_singleton]
    exact operand_input _ last.text

/-- A wrapper key applies to the operand as a whole, whatever the operator of the operand itself,
and so does every key of a sequence. The buffer that they leave is the expression that they make
of the operand just if it is within the limits. -/
theorem compile_pressAll {session : Session} {tree : Tree} {wrappers : List Wrapper}
    (h : session.engine.compile (operand session) = .ok tree) (hne : wrappers ≠ []) :
    let pressed := pressAll session wrappers
    session.engine.compile pressed.expression = .ok (wrapAll tree wrappers) ↔
      WithinLimits session.engine pressed.expression := by
  obtain ⟨d, hread, rfl⟩ := exists_derivation_of_compile h
  obtain ⟨d', hread', htree⟩ := exists_derivation_pressAll hread wrappers
  rw [operand_pressAll session hne] at hread'
  rw [← htree]
  exact compile_eq_tree_iff hread'

/-- A calculator with a sum in its buffer. -/
def typedSum : Session := (Session.start {} 50 .english).run [.input "1+2"]

def sumDerivation : Derivation .sum :=
  .sum (.product (.unsigned (.plain (.number 1))) .noFactor)
    (.addend .plus (.product (.unsigned (.plain (.number 2))) .noFactor) .noAddend)

theorem compile_pressAll_typedSum :
    typedSum.engine.compile (operand typedSum) = .ok (.binary .add (.number 1) (.number 2)) ∧
      typedSum.engine.compile (pressAll typedSum [.square, .toggleSign]).expression =
        .ok (.sign .negate
          (.binary .power (.binary .add (.number 1) (.number 2)) (.number 2))) := by
  have hcompile : typedSum.engine.compile (operand typedSum) =
      .ok (.binary .add (.number 1) (.number 2)) := by
    decide +kernel
  have hread : tokenize typedSum.engine.scientific
        (pressAll typedSum [.square, .toggleSign]).expression =
      .ok (Wrapper.toggleSign.derivation (Wrapper.square.derivation sumDerivation)).tokens := by
    decide +kernel
  refine ⟨hcompile, (compile_pressAll hcompile (by decide)).mpr ?_⟩
  exact (withinLimits_iff hread).mpr ⟨by decide, by decide⟩

end PocketCalculator.Proofs.WrapperKeys

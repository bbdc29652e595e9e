import PocketCalculator.Proofs.DerivationParsing
import PocketCalculator.Proofs.LexicalReading

namespace PocketCalculator.Proofs.EngineOptions

open PocketCalculator.Calculation
open PocketCalculator.Proofs.DerivationParsing
open PocketCalculator.Proofs.ExpressionGrammar
open PocketCalculator.Proofs.LexicalGrammar
open PocketCalculator.Proofs.LexicalReading

def trigonometric : List MathFunction := [.sin, .cos, .tan]

/-- The functions that can be switched off. -/
def optional : List MathFunction := .log :: trigonometric

/-- None of the functions is among the tokens. -/
def Without (functions : List MathFunction) (tokens : List Token) : Prop :=
  ∀ f ∈ functions, .function f ∉ tokens

/-- The two engines make the same of the text: the same value, or the same fault. -/
structure SameOutcome (engine engine' : Engine) (text : String) : Prop where
  raw : engine.evaluateRaw text = engine'.evaluateRaw text
  displayed : engine.evaluate text = engine'.evaluate text

theorem sameOutcome_of_raw {engine engine' : Engine} {text : String}
    (h : engine.evaluateRaw text = engine'.evaluateRaw text) :
    SameOutcome engine engine' text := by
  refine ⟨h, ?_⟩
  rw [Engine.evaluate, Engine.evaluate, h]

theorem mem_lexemes_false_iff {spelling : List Char} {token : Token} :
    (spelling, token) ∈ lexemes false ↔
      (spelling, token) ∈ lexemes true ∧ Without optional [token] := by
  have hnamed : ∀ lexeme ∈ lexemes true, lexeme ∈ lexemes false ↔ Without optional [lexeme.2] := by
    simp [lexemes, keywords, symbols, Without, optional, trigonometric]
  constructor
  · intro h
    have hmem := mem_lexemes_true h
    exact ⟨hmem, (hnamed _ hmem).mp h⟩
  · rintro ⟨hmem, hwithout⟩
    exact (hnamed _ hmem).mpr hwithout

theorem valid_false_iff {piece : Piece} :
    piece.Valid false ↔ piece.Valid true ∧ Without optional piece.tokens := by
  cases piece with
  | blank c => simp [Piece.Valid, Piece.tokens, Without]
  | literal numeral => simp [Piece.Valid, Piece.tokens, Without]
  | fixed spelling token => exact mem_lexemes_false_iff

theorem splits_false_iff {text : List Char} {pieces : List Piece} :
    Splits false text pieces ↔
      Splits true text pieces ∧ Without optional (pieces.flatMap Piece.tokens) := by
  constructor
  · rintro ⟨hvalid, hchain, htext⟩
    refine ⟨⟨fun piece hpiece => (valid_false_iff.mp (hvalid piece hpiece)).1, hchain, htext⟩, ?_⟩
    intro f hf hmem
    obtain ⟨piece, hpiece, htoken⟩ := List.mem_flatMap.mp hmem
    exact (valid_false_iff.mp (hvalid piece hpiece)).2 f hf htoken
  · rintro ⟨⟨hvalid, hchain, htext⟩, hwithout⟩
    refine ⟨?_, hchain, htext⟩
    intro piece hpiece
    refine valid_false_iff.mpr ⟨hvalid piece hpiece, ?_⟩
    intro f hf htoken
    exact hwithout f hf (List.mem_flatMap.mpr ⟨piece, hpiece, htoken⟩)

theorem tokenize_false_iff {text : String} {tokens : List Token} :
    tokenize false text = .ok tokens ↔
      tokenize true text = .ok tokens ∧ Without optional tokens := by
  simp only [tokenize_eq_ok_iff, splits_false_iff]
  constructor
  · rintro ⟨pieces, ⟨hpieces, hwithout⟩, rfl⟩
    exact ⟨⟨pieces, hpieces, rfl⟩, hwithout⟩
  · rintro ⟨⟨pieces, hpieces, rfl⟩, hwithout⟩
    exact ⟨pieces, ⟨hpieces, hwithout⟩, rfl⟩

theorem evaluateRaw_of_tokenize {engine engine' : Engine} {text : String}
    (hangle : engine.angleUnit = engine'.angleUnit)
    (h : tokenize engine.scientific text = tokenize engine'.scientific text) :
    engine.evaluateRaw text = engine'.evaluateRaw text := by
  simp only [Engine.evaluateRaw, Engine.compile, h, hangle]

theorem exists_tokens_of_evaluate {engine : Engine} {text : String}
    (h : ∀ fault, engine.evaluate text = .error fault → fault.isSyntax = false) :
    ∃ tokens, tokenize engine.scientific text = .ok tokens := by
  cases hread : tokenize engine.scientific text with
  | ok tokens => exact ⟨tokens, rfl⟩
  | error fault =>
      have hfault : engine.evaluate text = .error (.lexical fault) := by
        simp only [Engine.evaluate, Engine.evaluateRaw, Engine.compile, hread]
        rfl
      cases h _ hfault

/-- The functions that a tree calls, in the order in which they are written. -/
def called : Tree → List MathFunction
  | .number _ => []
  | .sign _ operand => called operand
  | .binary _ left right => called left ++ called right
  | .percent operand => called operand
  | .call f argument => f :: called argument

def function? : Token → Option MathFunction
  | .function f => some f
  | _ => none

/-- The functions that are among the tokens. -/
def named (tokens : List Token) : List MathFunction := tokens.filterMap function?

theorem mem_named {tokens : List Token} {f : MathFunction} :
    f ∈ named tokens ↔ .function f ∈ tokens := by
  rw [named, List.mem_filterMap]
  constructor
  · rintro ⟨token, htoken, hf⟩
    cases token <;> cases hf
    exact htoken
  · intro hf
    exact ⟨.function f, hf, rfl⟩

theorem named_append (tokens tokens' : List Token) :
    named (tokens ++ tokens') = named tokens ++ named tokens' := List.filterMap_append

theorem named_sign (sign : Sign) (tokens : List Token) :
    named (sign.token :: tokens) = named tokens := by
  cases sign <;> rfl

theorem named_joiner (joiner : Joiner) (tokens : List Token) :
    named (joiner.token :: tokens) = named tokens := by
  cases joiner <;> rfl

theorem named_parenthesized (tokens : List Token) :
    named (.openParen :: (tokens ++ [.closeParen])) = named tokens :=
  (named_append tokens [.closeParen]).trans (List.append_nil _)

/-- What a phrase stands for calls just the given functions. What addends and factors stand for
calls them after those of the tree to the left. -/
def Calls (functions : List MathFunction) : (c : Nonterminal) → c.Meaning → Prop
  | .addends, grow | .factors, grow => ∀ left, called (grow left) = called left ++ functions
  | .sum, tree | .product, tree | .operand, tree | .power, tree | .primary, tree =>
    called tree = functions

/-- What is derived calls the functions that are written, one for one. -/
theorem calls_named {c : Nonterminal} (d : Derivation c) : Calls (named d.tokens) c d.tree := by
  induction d with
  | sum first more ihfirst ihmore | product first more ihfirst ihmore =>
      calc called (more.tree first.tree) = called first.tree ++ named more.tokens := ihmore _
        _ = named first.tokens ++ named more.tokens := by rw [ihfirst]
        _ = named (first.tokens ++ more.tokens) := (named_append _ _).symm
  | noAddend | noFactor => exact fun left => (List.append_nil _).symm
  | addend sign right more ihright ihmore =>
      intro left
      calc called (more.tree (.binary sign.binary left right.tree))
        _ = called left ++ called right.tree ++ named more.tokens := ihmore _
        _ = called left ++ named (sign.token :: (right.tokens ++ more.tokens)) := by
          rw [ihright, List.append_assoc, named_sign, named_append]
  | factor joiner right more ihright ihmore =>
      intro left
      calc called (more.tree (.binary joiner.operator left right.tree))
        _ = called left ++ called right.tree ++ named more.tokens := ihmore _
        _ = called left ++ named (joiner.token :: (right.tokens ++ more.tokens)) := by
          rw [ihright, List.append_assoc, named_joiner, named_append]
  | percent more ihmore => exact fun left => ihmore (.percent left)
  | percentPower spelling exponent more ihexponent ihmore =>
      intro left
      calc called (more.tree (.binary .divide left (.binary .power (.number 100) exponent.tree)))
        _ = called left ++ called exponent.tree ++ named more.tokens := ihmore _
        _ = called left ++ named (exponent.tokens ++ more.tokens) := by
          rw [ihexponent, List.append_assoc, named_append]
  | signed sign operand ih =>
      rw [Derivation.tokens, named_sign]
      exact ih
  | unsigned power ih => exact ih
  | plain base ih => exact ih
  | raised base spelling exponent ihbase ihexponent =>
      rw [Derivation.tokens, named_append]
      exact congrArg₂ (· ++ ·) ihbase ihexponent
  | number value | pi | euler => rfl
  | group inner ih =>
      rw [Derivation.tokens, named_parenthesized]
      exact ih
  | call f argument ih =>
      calc called (.call f argument.tree) = f :: named argument.tokens := congrArg (f :: ·) ih
        _ = f :: named (.openParen :: (argument.tokens ++ [.closeParen])) := by
          rw [named_parenthesized]

theorem called_of_parse {tokens : List Token} {tree : Tree} (h : parse tokens = .ok tree) :
    called tree = named tokens := by
  obtain ⟨-, -, d, rfl, -, rfl⟩ := parse_eq_ok_iff.mp h
  exact calls_named d

theorem apply_eq_of_notMem {f : MathFunction} (h : f ∉ trigonometric) (angle angle' : AngleUnit)
    (x : Float) : f.apply angle x = f.apply angle' x := by
  cases f with
  | sqrt | log => rfl
  | sin | cos | tan => simp [trigonometric] at h

theorem eval_eq_of_called {tree : Tree} (h : ∀ f ∈ called tree, f ∉ trigonometric)
    (angle angle' : AngleUnit) : tree.eval angle = tree.eval angle' := by
  induction tree with
  | number value => rfl
  | sign op operand ih => rw [Tree.eval, Tree.eval, ih h]
  | binary op left right ihleft ihright =>
      obtain ⟨hleft, hright⟩ := List.forall_mem_append.mp h
      rw [Tree.eval, Tree.eval, ihleft hleft, ihright hright]
  | percent operand ih => rw [Tree.eval, Tree.eval, ih h]
  | call f argument ih =>
      obtain ⟨hf, hargument⟩ := List.forall_mem_cons.mp h
      rw [Tree.eval, Tree.eval, ih hargument, apply_eq_of_notMem hf angle angle']

theorem evaluateRaw_of_without {scientific : Bool} {text : String}
    (h : ∀ tokens, tokenize scientific text = .ok tokens → Without trigonometric tokens)
    (angle angle' : AngleUnit) :
    (Engine.mk scientific angle).evaluateRaw text =
      (Engine.mk scientific angle').evaluateRaw text := by
  simp only [Engine.evaluateRaw, Engine.compile]
  cases hread : tokenize scientific text with
  | error fault => rfl
  | ok tokens =>
      cases hparse : parse tokens with
      | error fault => simp [Except.mapError, hparse]
      | ok tree =>
          have hcalled : ∀ f ∈ called tree, f ∉ trigonometric := by
            intro f hf htrig
            rw [called_of_parse hparse, mem_named] at hf
            exact h tokens hread f htrig hf
          simp [Except.mapError, hparse, eval_eq_of_called hcalled angle angle']

/-- The options of an engine change nothing that is not named. A text without a syntax error keeps
its outcome when the functions that can be switched off are switched on, and a text that names none
of them keeps its outcome, be it a fault, when they are switched off. The angle unit is of no
account to a text that names no trigonometric function. -/
theorem options_change_only_what_is_named (text : String) (scientific : Bool)
    (angle angle' : AngleUnit) :
    ((∀ fault, (Engine.mk false angle).evaluate text = .error fault → fault.isSyntax = false) →
      SameOutcome ⟨true, angle⟩ ⟨false, angle⟩ text) ∧
    (∀ tokens, tokenize true text = .ok tokens → Without optional tokens →
      SameOutcome ⟨false, angle⟩ ⟨true, angle⟩ text) ∧
    ((∀ tokens, tokenize scientific text = .ok tokens → Without trigonometric tokens) →
      SameOutcome ⟨scientific, angle⟩ ⟨scientific, angle'⟩ text) := by
  refine ⟨?_, ?_, ?_⟩
  · intro hmath
    obtain ⟨tokens, htokens⟩ := exists_tokens_of_evaluate hmath
    have hon := (tokenize_false_iff.mp htokens).1
    exact sameOutcome_of_raw (evaluateRaw_of_tokenize rfl (hon.trans htokens.symm))
  · intro tokens hon hwithout
    have hoff := tokenize_false_iff.mpr ⟨hon, hwithout⟩
    exact sameOutcome_of_raw (evaluateRaw_of_tokenize rfl (hoff.trans hon.symm))
  · intro hwithout
    exact sameOutcome_of_raw (evaluateRaw_of_without hwithout angle angle')

theorem options_keep_infinite_quotient :
    (Engine.mk false .radians).evaluate "√(e)÷0" = .error .notFinite ∧
      (∃ tokens, tokenize true "√(e)÷0" = .ok tokens ∧ Without optional tokens ∧
        Without trigonometric tokens) ∧
      SameOutcome ⟨true, .radians⟩ ⟨false, .radians⟩ "√(e)÷0" ∧
      SameOutcome ⟨false, .radians⟩ ⟨true, .radians⟩ "√(e)÷0" ∧
      SameOutcome ⟨true, .radians⟩ ⟨true, .degrees⟩ "√(e)÷0" := by
  have hfault : (Engine.mk false .radians).evaluate "√(e)÷0" = .error .notFinite := by
    decide +kernel
  have hmath : ∀ fault, (Engine.mk false .radians).evaluate "√(e)÷0" = .error fault →
      fault.isSyntax = false := by
    intro fault h
    rw [hfault] at h
    cases h
    rfl
  have hread : tokenize true "√(e)÷0" =
      .ok [.function .sqrt, .openParen, .euler, .closeParen, .divide .sign, .number 0] := by
    decide +kernel
  have hoptional : Without optional [.function .sqrt, .openParen, .euler, .closeParen,
      .divide .sign, .number 0] := by
    simp [Without, optional, trigonometric]
  have htrigonometric : Without trigonometric [.function .sqrt, .openParen, .euler, .closeParen,
      .divide .sign, .number 0] :=
    fun f hf => hoptional f (List.mem_cons_of_mem _ hf)
  obtain ⟨hon, hoff, -⟩ := options_change_only_what_is_named "√(e)÷0" true .radians .radians
  obtain ⟨-, -, hangle⟩ := options_change_only_what_is_named "√(e)÷0" true .radians .degrees
  refine ⟨hfault, ⟨_, hread, hoptional, htrigonometric⟩, hon hmath, hoff _ hread hoptional, ?_⟩
  apply hangle
  intro tokens htokens
  rw [hread] at htokens
  cases htokens
  exact htrigonometric

end PocketCalculator.Proofs.EngineOptions

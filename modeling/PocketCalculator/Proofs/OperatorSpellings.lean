import PocketCalculator.Proofs.CalculatorDisplay
import PocketCalculator.Proofs.TypedExpression

namespace PocketCalculator.Proofs.OperatorSpellings

open PocketCalculator.Calculation
open PocketCalculator.Calculator
open PocketCalculator.Proofs.CalculatorDisplay
open PocketCalculator.Proofs.CalculatorRuns
open PocketCalculator.Proofs.LexicalGrammar
open PocketCalculator.Proofs.LexicalReading
open PocketCalculator.Proofs.TypedExpression

def isOperator : Token → Bool
  | .plus | .minus _ | .times _ | .divide _ | .percent | .modulo | .power _ => true
  | _ => false

/-- The operators that do not go on from a result in this spelling. -/
def startsAnew : Token → Bool
  | .minus .sign | .power .stars => true
  | _ => false

theorem exists_token {scientific : Bool} {piece : Piece} (hvalid : piece.Valid scientific)
    (hblank : ∀ c, piece ≠ .blank c) : ∃ token, piece.tokens = [token] := by
  cases piece with
  | blank c => exact absurd rfl (hblank c)
  | literal numeral => exact ⟨_, rfl⟩
  | fixed spelling token => exact ⟨token, rfl⟩

theorem eq_singleton_of_tokens {pieces : List Piece} {token : Token}
    (hone : ∀ piece ∈ pieces, ∃ token, piece.tokens = [token])
    (htokens : pieces.flatMap Piece.tokens = [token]) :
    ∃ piece, pieces = [piece] ∧ piece.tokens = [token] := by
  match pieces with
  | [] => cases htokens
  | [piece] => exact ⟨piece, rfl, by simpa using htokens⟩
  | first :: second :: pieces =>
      obtain ⟨t, ht⟩ := hone first (by simp)
      obtain ⟨t', ht'⟩ := hone second (by simp)
      simp [ht, ht'] at htokens

theorem tokenize_eq_operator_iff {scientific : Bool} {text : String} {token : Token}
    (hblank : ∀ c ∈ text.toList, Text.isBlank c = false) (hoperator : isOperator token) :
    tokenize scientific text = .ok [token] ↔ (text.toList, token) ∈ lexemes scientific := by
  rw [tokenize_eq_ok_iff]
  constructor
  · rintro ⟨pieces, hsplits, htokens⟩
    have hone : ∀ piece ∈ pieces, ∃ token, piece.tokens = [token] := by
      intro piece hpiece
      refine exists_token (hsplits.valid piece hpiece) ?_
      rintro c rfl
      exact blank_notMem_of_splits hsplits hblank c hpiece
    obtain ⟨piece, rfl, htoken⟩ := eq_singleton_of_tokens hone htokens
    have htext : piece.text = text.toList := by simpa using hsplits.text_eq
    have hvalid := hsplits.valid piece List.mem_cons_self
    cases piece with
    | blank c => cases htoken
    | literal numeral =>
        cases htoken
        cases hoperator
    | fixed spelling token =>
        cases htoken
        rw [← htext]
        exact hvalid
  · intro hmem
    refine ⟨[.fixed text.toList token], splits_cons.mpr ⟨[], ?_⟩, rfl⟩
    refine ⟨List.append_nil _, hmem, ?_, splits_nil.mpr rfl⟩
    unfold Piece.EndsAt
    split <;> simp

theorem ofText_operator {spelling : List Char} {token : Token}
    (h : (spelling, token) ∈ lexemes true) (hoperator : isOperator token) :
    (Key.ofText (String.ofList spelling)).isBinaryOperator = !startsAnew token ∧
      (Key.ofText (String.ofList spelling)).isWrapper = false ∧
      ∀ buffer, (Key.ofText (String.ofList spelling)).apply buffer =
        buffer ++ String.ofList spelling := by
  have hkey : ∀ lexeme ∈ lexemes true, isOperator lexeme.2 →
      (Key.ofText (String.ofList lexeme.1)).isBinaryOperator = !startsAnew lexeme.2 ∧
        (Key.ofText (String.ofList lexeme.1) = .literal (String.ofList lexeme.1) ∨
          Key.ofText (String.ofList lexeme.1) = .modulo ∧ String.ofList lexeme.1 = "Mod") := by
    decide
  obtain ⟨hbinary, hkey | ⟨hkey, htext⟩⟩ := hkey _ h hoperator
  · exact ⟨hbinary, by rw [hkey]; rfl, fun _ => by rw [hkey]; rfl⟩
  · exact ⟨hbinary, by rw [hkey]; rfl, fun _ => by rw [hkey, htext]; rfl⟩

/-- An operator key goes on from a result, whatever its spelling, unless that is one of two: then
the result is dropped, and the operator is left alone in the buffer. -/
theorem input_operator {session : Session} {scientific : Bool} {text : String} {token : Token}
    (hmode : session.mode = .showingResult)
    (hblank : ∀ c ∈ text.toList, Text.isBlank c = false)
    (hread : tokenize scientific text = .ok [token]) (hoperator : isOperator token) :
    (session.input text).mode = .idle ∧
      (session.input text).expression =
        if startsAnew token then text else session.result ++ text := by
  have hmem := mem_lexemes_true ((tokenize_eq_operator_iff hblank hoperator).mp hread)
  obtain ⟨hbinary, hwrapper, happly⟩ := ofText_operator hmem hoperator
  rw [String.ofList_toList] at hbinary hwrapper happly
  refine ⟨by simp [Session.input, resume_mode], ?_⟩
  cases hanew : startsAnew token <;>
    simp [Session.input, Session.resume, hmode, hbinary, hwrapper, happly, hanew]

/-- A calculator that shows six. -/
def showingSix : Session :=
  (Session.start {} 50 .english).run [.input "6", .calculate 0]

theorem showingSix_eq : showingSix.mode = .showingResult ∧ showingSix.result = "6" := by
  decide +kernel

theorem input_operator_modulo :
    showingSix.mode = .showingResult ∧ tokenize false "Mod" = .ok [.modulo] ∧
      (showingSix.input "Mod").expression = "6Mod" := by
  obtain ⟨hmode, hresult⟩ := showingSix_eq
  have hread : tokenize false "Mod" = .ok [.modulo] :=
    (tokenize_eq_operator_iff (by simp [Text.isBlank]) rfl).mpr (by decide)
  refine ⟨hmode, hread, ?_⟩
  rw [(input_operator hmode (by simp [Text.isBlank]) hread rfl).2, hresult]
  rfl

/-- Two operators that an expression may contain drop the result. -/
theorem input_operator_drops :
    showingSix.mode = .showingResult ∧ showingSix.result = "6" ∧
      tokenize true "−" = .ok [.minus .sign] ∧ (showingSix.input "−").expression = "−" ∧
      tokenize true "**" = .ok [.power .stars] ∧ (showingSix.input "**").expression = "**" := by
  obtain ⟨hmode, hresult⟩ := showingSix_eq
  refine ⟨hmode, hresult, ?_, by decide +kernel, ?_, by decide +kernel⟩
  · exact (tokenize_eq_operator_iff (by simp [Text.isBlank]) rfl).mpr (by decide)
  · exact (tokenize_eq_operator_iff (by simp [Text.isBlank]) rfl).mpr (by decide)

end PocketCalculator.Proofs.OperatorSpellings

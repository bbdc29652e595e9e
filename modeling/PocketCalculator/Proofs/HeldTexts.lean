import PocketCalculator.Proofs.ContinuedResult
import PocketCalculator.Proofs.KeypadTabs

namespace PocketCalculator.Proofs.HeldTexts

open PocketCalculator.Calculation (Engine)
open PocketCalculator.Calculator
open PocketCalculator.Calculator.Session
open PocketCalculator.Decimal (Numeral signed)
open PocketCalculator.Locale (Language)
open PocketCalculator.Proofs.CalculatorDisplay
open PocketCalculator.Proofs.CalculatorHistory
open PocketCalculator.Proofs.CalculatorRuns
open PocketCalculator.Proofs.ContinuedResult (exists_result_eq)
open PocketCalculator.Proofs.KeypadTabs
open PocketCalculator.Proofs.LexicalGrammar

/-- A property of texts that the empty text and every numeral, perhaps after a minus sign, have. -/
structure OfResults (P : String → Prop) : Prop where
  empty : P ""
  numeral : ∀ negative x, IsLiteral x → P (String.ofList (signed negative x.text))

theorem mem_signed {negative : Bool} {x : Numeral} (hx : IsLiteral x) {c : Char}
    (hc : c ∈ signed negative x.text) : c = '-' ∨ c.isDigit ∨ c = '.' := by
  cases negative with
  | false => exact Or.inr (IsLiteral.of_mem_text hx hc)
  | true =>
      rcases List.mem_cons.mp hc with rfl | hc
      · exact Or.inl rfl
      · exact Or.inr (IsLiteral.of_mem_text hx hc)

/-- Every text that the session holds has the property. The word for an error need not. -/
structure Holds (P : String → Prop) (session : Session) : Prop where
  expression : P session.expression
  preview : P session.preview
  result : session.mode ≠ .showingError → P session.result
  entries : ∀ entry ∈ session.history.entries, P entry.expression ∧ P entry.result

/-- An action that turns no buffer with the property into one without it. -/
def Keeps (P : String → Prop) : Action → Prop
  | .input text => ∀ buffer, P buffer → P ((Key.ofText text).apply buffer)
  | .deleteLast => ∀ buffer, P buffer → P (String.ofList buffer.toList.dropLast)
  | .loadEntry entry => P entry.result
  | _ => True

variable {P : String → Prop} (hresults : OfResults P)
include hresults

theorem OfResults.evaluate {engine : Engine} {text result : String}
    (h : engine.evaluate text = .ok result) : P result := by
  obtain ⟨negative, x, hx, rfl⟩ := exists_result_eq h
  exact hresults.numeral negative x hx

theorem OfResults.previewOf (engine : Engine) (expression : String) :
    P (previewOf engine expression) := by
  by_cases hempty : Session.previewOf engine expression = ""
  · rw [hempty]
    exact hresults.empty
  · exact hresults.evaluate (evaluate_of_previewOf_ne_empty hempty).2

theorem holds_start (engine : Engine) (capacity : Nat) (language : Language) :
    Holds P (Session.start engine capacity language) :=
  ⟨hresults.empty, hresults.empty, fun _ => hresults.empty, nofun⟩

theorem holds_refreshPreview {session : Session} (h : Holds P session) :
    Holds P (refreshPreview session) := by
  unfold refreshPreview
  split
  · exact ⟨h.expression, hresults.previewOf _ _, h.result, h.entries⟩
  · exact h

theorem holds_clear {session : Session} (h : Holds P session) : Holds P session.clear :=
  ⟨hresults.empty, hresults.empty, fun _ => hresults.empty, h.entries⟩

theorem holds_resume {session : Session} (h : Holds P session) (key : Key) :
    Holds P (session.resume key) := by
  unfold resume
  split
  · exact h
  next hmode =>
    refine ⟨?_, h.preview, fun _ => hresults.empty, h.entries⟩
    dsimp only
    split
    · exact h.result (by rw [hmode]; nofun)
    · exact hresults.empty
  · exact ⟨hresults.empty, h.preview, fun _ => hresults.empty, h.entries⟩

theorem holds_input {session : Session} {text : String} (h : Holds P session)
    (hkeeps : Keeps P (.input text)) : Holds P (session.input text) := by
  have hready := holds_resume hresults h (Key.ofText text)
  exact holds_refreshPreview hresults
    ⟨hkeeps _ hready.expression, hready.preview, hready.result, hready.entries⟩

theorem holds_deleteLast {session : Session} (h : Holds P session)
    (hkeeps : Keeps P .deleteLast) : Holds P session.deleteLast := by
  unfold deleteLast
  split
  · exact holds_clear hresults h
  · exact holds_refreshPreview hresults
      ⟨hkeeps _ h.expression, h.preview, h.result, h.entries⟩

theorem holds_calculate {session : Session} (h : Holds P session) (now : Nat) :
    Holds P (session.calculate now) := by
  rcases calculate_cases session now with
    ⟨-, hcalculate⟩ | ⟨value, -, hvalue, hcalculate⟩ | ⟨fault, -, -, hcalculate⟩ <;>
    rw [hcalculate]
  · exact h
  · have hresult := hresults.evaluate hvalue
    refine ⟨h.expression, hresults.empty, fun _ => hresult, ?_⟩
    intro entry hentry
    rcases List.mem_cons.mp (List.mem_of_mem_take hentry) with rfl | hentry
    · exact ⟨h.expression, hresult⟩
    · exact h.entries entry hentry
  · exact ⟨h.expression, hresults.empty, fun hmode => absurd rfl hmode, h.entries⟩

theorem holds_loadEntry {session : Session} {entry : Entry} (h : Holds P session)
    (hentry : P entry.result) : Holds P (session.loadEntry entry) :=
  holds_refreshPreview hresults
    ⟨hentry, hresults.empty, fun _ => hresults.empty, h.entries⟩

theorem holds_perform {session : Session} {action : Action} (h : Holds P session)
    (hkeeps : Keeps P action) : Holds P (session.perform action) := by
  cases action with
  | input text => exact holds_input hresults h hkeeps
  | clear => exact holds_clear hresults h
  | deleteLast => exact holds_deleteLast hresults h hkeeps
  | calculate now => exact holds_calculate hresults h now
  | loadIndex index =>
      rcases perform_loadIndex session index with ⟨entry, hentry, hload⟩ | hload <;> rw [hload]
      · exact holds_loadEntry hresults h (h.entries entry hentry).2
      · exact h
  | loadEntry entry => exact holds_loadEntry hresults h hkeeps
  | clearHistory => exact ⟨h.expression, h.preview, h.result, nofun⟩
  | setLanguage language => exact ⟨h.expression, h.preview, h.result, h.entries⟩

theorem holds_run {session : Session} {actions : List Action} (h : Holds P session)
    (hkeeps : ∀ action ∈ actions, Keeps P action) : Holds P (session.run actions) :=
  List.foldlRecOn actions perform h fun _ h action haction =>
    holds_perform hresults h (hkeeps action haction)

theorem holds_keypad_run (settings : Settings) {actions : List Keypad.Action}
    (hkeeps : ∀ tab, ∀ action ∈ actions, ∀ reaching ∈ toCalculator? (tab, action),
      Keeps P reaching) :
    Holds P ((Keypad.start settings).run actions).calculator := by
  rw [run_part perform_calculator]
  refine holds_run hresults (holds_start hresults _ _ _) ?_
  intro reaching hreaching
  obtain ⟨⟨tab, action⟩, harrival, hreach⟩ := List.mem_filterMap.mp hreaching
  exact hkeeps tab action (mem_of_mem_arrivals harrival) reaching hreach

end PocketCalculator.Proofs.HeldTexts

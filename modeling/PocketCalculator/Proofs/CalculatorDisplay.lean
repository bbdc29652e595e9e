import Mathlib.Data.List.Infix
import PocketCalculator.Proofs.CalculatorRuns
import PocketCalculator.Settings.Basic

namespace PocketCalculator.Proofs.CalculatorDisplay

open PocketCalculator.Calculation (Engine)
open PocketCalculator.Calculator
open PocketCalculator.Calculator.Session
open PocketCalculator.Locale (Language)
open PocketCalculator.Proofs.CalculatorRuns

/-- Whether an expression ends in an ASCII digit or a closing parenthesis. -/
def EndsInOperand (expression : String) : Prop :=
  ∃ c ∈ expression.toList.getLast?, c.isDigit ∨ c = ')'

theorem endsComplete_iff {expression : String} :
    endsComplete expression ↔ EndsInOperand expression := by
  unfold endsComplete EndsInOperand
  cases expression.toList.getLast? <;> simp

/-- The texts on the display while an expression is typed. -/
structure Typing (session : Session) : Prop where
  result : session.result = ""
  preview : session.preview = previewOf session.engine session.expression

/-- The texts on the display with a result. Characters may have been taken off the expression. -/
structure Succeeded (session : Session) : Prop where
  preview : session.preview = ""
  result : ∃ evaluated, session.engine.evaluate evaluated = .ok session.result ∧
    session.expression.toList <+: evaluated.toList

/-- The texts on the display with an error. The label keeps the language it was written in. -/
structure Failed (session : Session) : Prop where
  preview : session.preview = ""
  expression : session.expression ≠ ""
  fault : ∃ fault, session.engine.evaluate session.expression = .error fault
  label : ∃ language ∈ Language.all, session.result = language.labels.error

/-- The display agrees with the mode. -/
def Coherent (session : Session) : Prop :=
  match session.mode with
  | .idle => Typing session
  | .showingResult => Succeeded session
  | .showingError => Failed session

theorem coherent_of_idle {session : Session} (hmode : session.mode = .idle)
    (h : Typing session) : Coherent session := by
  unfold Coherent
  rw [hmode]
  exact h

theorem coherent_refreshPreview {session : Session} (hmode : session.mode = .idle)
    (hresult : session.result = "") : Coherent (refreshPreview session) := by
  unfold refreshPreview
  rw [if_pos hmode]
  exact coherent_of_idle hmode ⟨hresult, rfl⟩

theorem coherent_clear (session : Session) : Coherent session.clear :=
  coherent_of_idle rfl ⟨rfl, rfl⟩

theorem coherent_loadEntry (session : Session) (entry : Entry) :
    Coherent (session.loadEntry entry) :=
  coherent_refreshPreview rfl rfl

theorem resume_mode {session : Session} (key : Key) : (session.resume key).mode = .idle := by
  unfold resume
  split
  · assumption
  · rfl
  · rfl

theorem coherent_input {session : Session} (h : Coherent session) (text : String) :
    Coherent (session.input text) := by
  refine coherent_refreshPreview (resume_mode _) ?_
  change (session.resume (Key.ofText text)).result = ""
  unfold resume
  split
  next hmode =>
    rw [Coherent, hmode] at h
    exact h.result
  · rfl
  · rfl

theorem coherent_deleteLast {session : Session} (h : Coherent session) :
    Coherent session.deleteLast := by
  unfold deleteLast
  split
  next hmode => exact coherent_clear session
  next hmode =>
    cases hshown : session.mode with
    | idle =>
        rw [Coherent, hshown] at h
        exact coherent_refreshPreview rfl h.result
    | showingResult =>
        rw [Coherent, hshown] at h
        obtain ⟨evaluated, hvalue, hprefix⟩ := h.result
        refine ⟨h.preview, evaluated, hvalue, ?_⟩
        change (String.ofList session.expression.toList.dropLast).toList <+: evaluated.toList
        rw [String.toList_ofList]
        exact (List.dropLast_prefix _).trans hprefix
    | showingError => exact absurd hshown hmode

theorem mem_all_languages (language : Language) : language ∈ Language.all := by
  cases language <;> decide

theorem coherent_calculate {session : Session} (h : Coherent session) (now : Nat) :
    Coherent (session.calculate now) := by
  rcases calculate_cases session now with
    ⟨-, hcalculate⟩ | ⟨value, -, hvalue, hcalculate⟩ | ⟨fault, hne, hfault, hcalculate⟩
  · rwa [hcalculate]
  · rw [hcalculate]
    exact ⟨rfl, session.expression, hvalue, List.prefix_rfl⟩
  · rw [hcalculate]
    exact ⟨rfl, hne, ⟨fault, hfault⟩, session.language, mem_all_languages _, rfl⟩

theorem coherent_frame {session : Session} (h : Coherent session) (history : History)
    (language : Language) : Coherent { session with history, language } := by
  unfold Coherent at h ⊢
  dsimp only
  cases hmode : session.mode with
  | idle =>
      rw [hmode] at h
      exact ⟨h.result, h.preview⟩
  | showingResult =>
      rw [hmode] at h
      exact ⟨h.preview, h.result⟩
  | showingError =>
      rw [hmode] at h
      exact ⟨h.preview, h.expression, h.fault, h.label⟩

theorem coherent_perform (session : Session) (action : Action) (h : Coherent session) :
    Coherent (session.perform action) := by
  cases action with
  | input text => exact coherent_input h text
  | clear => exact coherent_clear session
  | deleteLast => exact coherent_deleteLast h
  | calculate now => exact coherent_calculate h now
  | loadIndex index =>
      rcases perform_loadIndex session index with ⟨entry, -, hload⟩ | hload
      · rw [hload]
        exact coherent_loadEntry session entry
      · rwa [hload]
  | loadEntry entry => exact coherent_loadEntry session entry
  | clearHistory => exact coherent_frame h session.history.clear session.language
  | setLanguage language => exact coherent_frame h session.history language

theorem coherent_run (engine : Engine) (capacity : Nat) (language : Language)
    (actions : List Action) : Coherent ((Session.start engine capacity language).run actions) :=
  run_induction (coherent_of_idle rfl ⟨rfl, rfl⟩) coherent_perform actions

theorem previewOf_of_ok {engine : Engine} {expression value : String}
    (hends : EndsInOperand expression) (hvalue : engine.evaluate expression = .ok value) :
    previewOf engine expression = value := by
  rw [previewOf, if_pos (endsComplete_iff.mpr hends), hvalue]

theorem previewOf_eq_empty {engine : Engine} {expression : String}
    (h : ¬ (EndsInOperand expression ∧ ∃ value, engine.evaluate expression = .ok value)) :
    previewOf engine expression = "" := by
  unfold previewOf
  split
  next hends =>
    cases hread : engine.evaluate expression with
    | ok value => exact absurd ⟨endsComplete_iff.mp hends, value, hread⟩ h
    | error fault => rfl
  · rfl

theorem evaluate_of_previewOf_ne_empty {engine : Engine} {expression : String}
    (h : previewOf engine expression ≠ "") :
    expression ≠ "" ∧ engine.evaluate expression = .ok (previewOf engine expression) := by
  by_cases hvalue : EndsInOperand expression ∧ ∃ value, engine.evaluate expression = .ok value
  · obtain ⟨hends, value, hvalue⟩ := hvalue
    refine ⟨?_, by rw [previewOf_of_ok hends hvalue, hvalue]⟩
    rintro rfl
    exact h rfl
  · exact absurd (previewOf_eq_empty hvalue) h

/-- What the display shows after any run, in each mode. While an expression is typed there is no
result, and the preview is the value of an expression that ends in an operand and has one; a
preview in view is the result of the next calculation. A result is the value of an expression that
starts with the buffer. An error stands over a buffer without a value, in the words of some
language. -/
theorem display_of_run (settings : Settings) (actions : List Action) :
    let session :=
      (Session.start settings.engine settings.historyCapacity settings.language).run actions
    let evaluate := settings.engine.evaluate
    (session.mode = .idle →
      session.result = "" ∧
        (∀ value, EndsInOperand session.expression → evaluate session.expression = .ok value →
          session.preview = value) ∧
        (¬ (EndsInOperand session.expression ∧ ∃ value, evaluate session.expression = .ok value) →
          session.preview = "") ∧
        (session.preview ≠ "" → ∀ now,
          (session.perform (.calculate now)).mode = .showingResult ∧
            (session.perform (.calculate now)).result = session.preview)) ∧
      (session.mode = .showingResult →
        session.preview = "" ∧
          ∃ evaluated, evaluate evaluated = .ok session.result ∧
            session.expression.toList <+: evaluated.toList) ∧
      (session.mode = .showingError →
        session.preview = "" ∧ session.expression ≠ "" ∧
          (∃ fault, evaluate session.expression = .error fault) ∧
            ∃ language ∈ Language.all, session.result = language.labels.error) := by
  intro session evaluate
  have hcoherent : Coherent session := coherent_run _ _ _ actions
  have hengine : session.engine = settings.engine := run_engine actions
  unfold Coherent at hcoherent
  refine ⟨?_, ?_, ?_⟩
  · intro hmode
    rw [hmode] at hcoherent
    have hpreview : session.preview = previewOf settings.engine session.expression :=
      hengine ▸ hcoherent.preview
    refine ⟨hcoherent.result, ?_, ?_, ?_⟩
    · intro value hends hvalue
      rw [hpreview, previewOf_of_ok hends hvalue]
    · intro hnone
      rw [hpreview, previewOf_eq_empty hnone]
    · intro hshown now
      rw [hpreview] at hshown
      obtain ⟨hne, hvalue⟩ := evaluate_of_previewOf_ne_empty hshown
      rw [← hpreview, ← hengine] at hvalue
      change (session.calculate now).mode = _ ∧ (session.calculate now).result = _
      rw [calculate_of_ok hne hvalue]
      exact ⟨rfl, rfl⟩
  · intro hmode
    rw [hmode] at hcoherent
    rw [show evaluate = session.engine.evaluate from hengine ▸ rfl]
    exact ⟨hcoherent.preview, hcoherent.result⟩
  · intro hmode
    rw [hmode] at hcoherent
    rw [show evaluate = session.engine.evaluate from hengine ▸ rfl]
    exact ⟨hcoherent.preview, hcoherent.expression, hcoherent.fault, hcoherent.label⟩

end PocketCalculator.Proofs.CalculatorDisplay

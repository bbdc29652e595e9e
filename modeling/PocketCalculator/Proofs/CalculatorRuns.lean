import PocketCalculator.Calculator.Session

namespace PocketCalculator.Proofs.CalculatorRuns

open PocketCalculator.Calculation (Fault)
open PocketCalculator.Calculator
open PocketCalculator.Calculator.Session

variable {session : Session}

theorem loadIndex?_eq_some_iff {index : Nat} {loaded : Session} :
    session.loadIndex? index = some loaded ↔
      ∃ entry, session.history.get? index = some entry ∧ session.loadEntry entry = loaded :=
  Option.map_eq_some_iff

theorem perform_loadIndex (session : Session) (index : Nat) :
    (∃ entry ∈ session.history.entries,
        session.perform (.loadIndex index) = session.loadEntry entry) ∨
      session.perform (.loadIndex index) = session := by
  cases hget : session.history.get? index with
  | none =>
      right
      simp [perform, loadIndex?, hget]
  | some entry =>
      left
      refine ⟨entry, List.mem_of_getElem? hget, ?_⟩
      simp [perform, loadIndex?, hget]

@[simp] theorem refreshPreview_engine : (refreshPreview session).engine = session.engine := by
  unfold refreshPreview
  split <;> rfl

@[simp] theorem refreshPreview_history : (refreshPreview session).history = session.history := by
  unfold refreshPreview
  split <;> rfl

@[simp] theorem refreshPreview_mode : (refreshPreview session).mode = session.mode := by
  unfold refreshPreview
  split <;> rfl

@[simp] theorem refreshPreview_expression :
    (refreshPreview session).expression = session.expression := by
  unfold refreshPreview
  split <;> rfl

@[simp] theorem resume_engine (key : Key) : (session.resume key).engine = session.engine := by
  unfold resume
  split <;> rfl

@[simp] theorem resume_history (key : Key) : (session.resume key).history = session.history := by
  unfold resume
  split <;> rfl

theorem calculate_of_empty (h : session.expression = "") (now : Nat) :
    session.calculate now = session :=
  if_pos h

theorem calculate_of_ok {value : String} (h : session.expression ≠ "")
    (hvalue : session.engine.evaluate session.expression = .ok value) (now : Nat) :
    session.calculate now =
      { session with
        preview := ""
        result := value
        mode := .showingResult
        history := session.history.push ⟨session.expression, value, now⟩ } := by
  rw [calculate, if_neg h, hvalue]

theorem calculate_of_error {fault : Fault} (h : session.expression ≠ "")
    (hfault : session.engine.evaluate session.expression = .error fault) (now : Nat) :
    session.calculate now =
      { session with
        preview := ""
        result := session.language.labels.error
        mode := .showingError } := by
  rw [calculate, if_neg h, hfault]

/-- What a calculation can come to. -/
theorem calculate_cases (session : Session) (now : Nat) :
    session.expression = "" ∧ session.calculate now = session ∨
      (∃ value, session.expression ≠ "" ∧
        session.engine.evaluate session.expression = .ok value ∧
          session.calculate now =
            { session with
              preview := ""
              result := value
              mode := .showingResult
              history := session.history.push ⟨session.expression, value, now⟩ }) ∨
        ∃ fault, session.expression ≠ "" ∧
          session.engine.evaluate session.expression = .error fault ∧
            session.calculate now =
              { session with
                preview := ""
                result := session.language.labels.error
                mode := .showingError } := by
  by_cases hempty : session.expression = ""
  · exact Or.inl ⟨hempty, calculate_of_empty hempty now⟩
  right
  cases hread : session.engine.evaluate session.expression with
  | ok value => exact Or.inl ⟨value, hempty, rfl, calculate_of_ok hempty hread now⟩
  | error fault => exact Or.inr ⟨fault, hempty, rfl, calculate_of_error hempty hread now⟩

theorem perform_engine (action : Action) : (session.perform action).engine = session.engine := by
  cases action with
  | input text => simp [perform, input]
  | clear => rfl
  | deleteLast =>
      simp only [perform, deleteLast]
      split <;> simp [clear]
  | calculate now =>
      change (session.calculate now).engine = _
      rcases calculate_cases session now with ⟨-, h⟩ | ⟨value, -, -, h⟩ | ⟨fault, -, -, h⟩ <;>
        rw [h]
  | loadIndex index =>
      rcases perform_loadIndex session index with ⟨entry, -, h⟩ | h <;> rw [h]
      simp [loadEntry]
  | loadEntry entry => simp [perform, loadEntry]
  | clearHistory => rfl
  | setLanguage language => rfl

theorem run_append_singleton (actions : List Action) (action : Action) :
    session.run (actions ++ [action]) = (session.run actions).perform action :=
  List.foldl_append

/-- What holds at the start and is kept by every action holds after every run. -/
theorem run_induction {motive : Session → Prop} (hstart : motive session)
    (hstep : ∀ session action, motive session → motive (session.perform action))
    (actions : List Action) : motive (session.run actions) := by
  induction actions generalizing session with
  | nil => exact hstart
  | cons action actions ih => exact ih (hstep session action hstart)

theorem run_engine (actions : List Action) : (session.run actions).engine = session.engine :=
  run_induction (motive := fun later => later.engine = session.engine) rfl
    (fun _ action h => (perform_engine action).trans h) actions

end PocketCalculator.Proofs.CalculatorRuns

import Mathlib.Data.List.Induction
import PocketCalculator.Proofs.CalculatorRuns
import PocketCalculator.Settings.Basic

namespace PocketCalculator.Proofs.CalculatorHistory

open PocketCalculator.Calculation (Engine)
open PocketCalculator.Calculator
open PocketCalculator.Calculator.Session
open PocketCalculator.Locale (Language)
open PocketCalculator.Proofs.CalculatorRuns

/-- The buffer and its value, if an action calculates and there is a value to record. -/
def recorded? (session : Session) : Action → Option (String × String)
  | .calculate _ =>
    if session.expression = "" then none
    else
      match session.engine.evaluate session.expression with
      | .ok value => some (session.expression, value)
      | .error _ => none
  | _ => none

/-- The actions of a run, each with the session that it finds. -/
def steps (session : Session) : List Action → List (Session × Action)
  | [] => []
  | action :: rest => (session, action) :: steps (session.perform action) rest

/-- What a run records after the last time it clears the history, the newest pair first. -/
def recordedSinceClear (session : Session) (actions : List Action) : List (String × String) :=
  ((steps session actions).reverse.takeWhile fun step => step.2 ≠ .clearHistory).filterMap
    fun step => recorded? step.1 step.2

theorem steps_append_singleton (session : Session) (actions : List Action) (action : Action) :
    steps session (actions ++ [action]) =
      steps session actions ++ [(session.run actions, action)] := by
  induction actions generalizing session with
  | nil => rfl
  | cons first rest ih => exact congrArg ((session, first) :: ·) (ih (session.perform first))

theorem recordedSinceClear_clearHistory (session : Session) (actions : List Action) :
    recordedSinceClear session (actions ++ [.clearHistory]) = [] := by
  simp [recordedSinceClear, steps_append_singleton]

theorem recordedSinceClear_of_ne {action : Action} (h : action ≠ .clearHistory)
    (session : Session) (actions : List Action) :
    recordedSinceClear session (actions ++ [action]) =
      (recorded? (session.run actions) action).toList ++ recordedSinceClear session actions := by
  simp only [recordedSinceClear, steps_append_singleton, List.reverse_append,
    List.reverse_singleton, List.singleton_append]
  rw [List.takeWhile_cons_of_pos (by simpa using h), List.filterMap_cons]
  cases recorded? (session.run actions) action <;> rfl

/-- The expressions and results of a history. -/
def pairs (history : History) : List (String × String) :=
  history.entries.map fun entry => (entry.expression, entry.result)

theorem pairs_push (history : History) (entry : Entry) :
    pairs (history.push entry) =
      ((entry.expression, entry.result) :: pairs history).take history.capacity := by
  simp [pairs, History.push, List.map_take]

theorem take_cons_take {α : Type} (a : α) (as : List α) (n : Nat) :
    (a :: as.take n).take n = (a :: as).take n := by
  cases n with
  | zero => rfl
  | succ n => simp [List.take_take]

/-- An action records its pair in front, clears the history, or leaves it as it is. -/
theorem perform_history (session : Session) (action : Action) :
    (∃ expression value now, recorded? session action = some (expression, value) ∧
        session.engine.evaluate expression = .ok value ∧
          (session.perform action).history = session.history.push ⟨expression, value, now⟩) ∨
      recorded? session action = none ∧
        (action = .clearHistory ∧ (session.perform action).history = session.history.clear ∨
          action ≠ .clearHistory ∧ (session.perform action).history = session.history) := by
  cases action with
  | calculate now =>
      change (∃ expression value now', _ ∧ _ ∧ (session.calculate now).history = _) ∨
        _ ∧ (_ ∨ _ ∧ (session.calculate now).history = _)
      rcases calculate_cases session now with
        ⟨hempty, h⟩ | ⟨value, hne, hvalue, h⟩ | ⟨fault, hne, hfault, h⟩
      · right
        refine ⟨by simp [recorded?, hempty], Or.inr ⟨by simp, by rw [h]⟩⟩
      · left
        refine ⟨session.expression, value, now, by simp [recorded?, hne, hvalue], hvalue, by rw [h]⟩
      · right
        refine ⟨by simp [recorded?, hne, hfault], Or.inr ⟨by simp, by rw [h]⟩⟩
  | clearHistory => exact Or.inr ⟨rfl, Or.inl ⟨rfl, rfl⟩⟩
  | input text =>
      refine Or.inr ⟨rfl, Or.inr ⟨by simp, ?_⟩⟩
      simp [perform, input]
  | clear => exact Or.inr ⟨rfl, Or.inr ⟨by simp, rfl⟩⟩
  | deleteLast =>
      refine Or.inr ⟨rfl, Or.inr ⟨by simp, ?_⟩⟩
      simp only [perform, deleteLast]
      split <;> simp [Session.clear]
  | loadIndex index =>
      refine Or.inr ⟨rfl, Or.inr ⟨by simp, ?_⟩⟩
      rcases perform_loadIndex session index with ⟨entry, -, h⟩ | h <;> rw [h]
      simp [loadEntry]
  | loadEntry entry =>
      refine Or.inr ⟨rfl, Or.inr ⟨by simp, ?_⟩⟩
      simp [perform, loadEntry]
  | setLanguage language => exact Or.inr ⟨rfl, Or.inr ⟨by simp, rfl⟩⟩

theorem perform_capacity (session : Session) (action : Action) :
    (session.perform action).history.capacity = session.history.capacity := by
  rcases perform_history session action with
    ⟨expression, value, now, -, -, h⟩ | ⟨-, ⟨-, h⟩ | ⟨-, h⟩⟩ <;> rw [h]
  · rfl
  · rfl

theorem run_capacity (session : Session) (actions : List Action) :
    (session.run actions).history.capacity = session.history.capacity :=
  run_induction (motive := fun later => later.history.capacity = session.history.capacity) rfl
    (fun later action h => (perform_capacity later action).trans h) actions

/-- Every entry holds an expression with its value. -/
def Sound (session : Session) : Prop :=
  ∀ entry ∈ session.history.entries, session.engine.evaluate entry.expression = .ok entry.result

theorem sound_perform (session : Session) (action : Action) (h : Sound session) :
    Sound (session.perform action) := by
  unfold Sound at h ⊢
  rw [perform_engine]
  rcases perform_history session action with
    ⟨expression, value, now, -, hvalue, hhistory⟩ | ⟨-, ⟨-, hhistory⟩ | ⟨-, hhistory⟩⟩ <;>
    rw [hhistory]
  · intro entry hentry
    rcases List.mem_cons.mp (List.mem_of_mem_take hentry) with rfl | hentry
    · exact hvalue
    · exact h entry hentry
  · intro entry hentry
    cases hentry
  · exact h

theorem sound_run (engine : Engine) (capacity : Nat) (language : Language)
    (actions : List Action) : Sound ((Session.start engine capacity language).run actions) :=
  run_induction (fun _ hentry => by cases hentry) sound_perform actions

theorem pairs_run (engine : Engine) (capacity : Nat) (language : Language)
    (actions : List Action) :
    let session := Session.start engine capacity language
    pairs (session.run actions).history = (recordedSinceClear session actions).take capacity := by
  intro session
  induction actions using List.reverseRecOn with
  | nil => exact List.take_nil.symm
  | append_singleton actions action ih =>
      have hcapacity : (session.run actions).history.capacity = capacity :=
        run_capacity session actions
      rw [run_append_singleton]
      rcases perform_history (session.run actions) action with
        ⟨expression, value, now, hrecorded, -, h⟩ | ⟨hnone, ⟨rfl, h⟩ | ⟨hne, h⟩⟩
      · have hne : action ≠ .clearHistory := by
          rintro rfl
          cases hrecorded
        rw [h, pairs_push, hcapacity, ih, take_cons_take, recordedSinceClear_of_ne hne, hrecorded]
        rfl
      · rw [h, recordedSinceClear_clearHistory, List.take_nil]
        rfl
      · rw [h, ih, recordedSinceClear_of_ne hne, hnone]
        rfl

/-- The history after any run holds the pairs recorded since it was last cleared, the newest first
and no more than its capacity. Every entry holds an expression with its value, and an action that
records nothing leaves a history as it is unless it clears it. -/
theorem history_of_run (settings : Settings) (actions : List Action) :
    let start :=
      Session.start settings.engine settings.historyCapacity settings.language
    let session := start.run actions
    pairs session.history =
        (recordedSinceClear start actions).take settings.historyCapacity ∧
      session.history.entries.length ≤ settings.historyCapacity ∧
      (∀ entry ∈ session.history.entries,
        settings.engine.evaluate entry.expression = .ok entry.result) ∧
      ∀ action, action ≠ .clearHistory → recorded? session action = none →
        (session.perform action).history = session.history := by
  intro start session
  have hpairs : pairs session.history =
      (recordedSinceClear start actions).take settings.historyCapacity :=
    pairs_run _ _ _ actions
  have hengine : session.engine = settings.engine := run_engine actions
  refine ⟨hpairs, ?_, ?_, ?_⟩
  · have hlength := congrArg List.length hpairs
    rw [pairs, List.length_map, List.length_take] at hlength
    rw [hlength]
    exact Nat.min_le_left _ _
  · intro entry hentry
    rw [← hengine]
    exact sound_run _ _ _ actions entry hentry
  · intro action hne hnone
    rcases perform_history session action with
      ⟨expression, value, now, hrecorded, -, -⟩ | ⟨-, ⟨hclear, -⟩ | ⟨-, h⟩⟩
    · rw [hnone] at hrecorded
      cases hrecorded
    · exact absurd hclear hne
    · exact h

end PocketCalculator.Proofs.CalculatorHistory

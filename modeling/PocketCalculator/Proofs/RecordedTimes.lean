import PocketCalculator.Proofs.CalculatorRuns

namespace PocketCalculator.Proofs.RecordedTimes

open PocketCalculator.Calculator
open PocketCalculator.Calculator.Session
open PocketCalculator.Locale (Language)
open PocketCalculator.Proofs.CalculatorRuns

def untimedEntry (entry : Entry) : Entry := { entry with time := 0 }

def untimedHistory (history : History) : History :=
  { history with entries := history.entries.map untimedEntry }

/-- The session with another history and another language. -/
def framed (session : Session) (history : History) (language : Language) : Session :=
  { session with history, language }

/-- The session with the times of its entries left out. -/
def untimed (session : Session) : Session :=
  framed session (untimedHistory session.history) session.language

/-- The action with the times that it carries left out. -/
def untimedAction : Action → Action
  | .calculate _ => .calculate 0
  | .loadEntry entry => .loadEntry (untimedEntry entry)
  | action => action

theorem untimedHistory_push (history : History) (entry : Entry) :
    untimedHistory (history.push entry) = (untimedHistory history).push (untimedEntry entry) := by
  simp only [untimedHistory, History.push, List.map_take, List.map_cons]

theorem get?_untimedHistory (history : History) (index : Nat) :
    (untimedHistory history).get? index = (history.get? index).map untimedEntry :=
  List.getElem?_map

/-- An operation that neither reads nor writes the history and the language. -/
def Frames (f : Session → Session) : Prop :=
  ∀ session history language,
    f (framed session history language) = framed (f session) history language

theorem frames_refreshPreview : Frames refreshPreview := by
  intro session history language
  unfold refreshPreview framed
  dsimp only
  split <;> rfl

theorem frames_resume (key : Key) : Frames (resume · key) := by
  intro session history language
  unfold resume framed
  dsimp only
  split <;> rfl

theorem frames_input (text : String) : Frames (input · text) := by
  intro session history language
  have hready : (framed session history language).resume (Key.ofText text) =
      framed (session.resume (Key.ofText text)) history language :=
    frames_resume (Key.ofText text) session history language
  change (framed session history language).input text = _
  rw [input, hready]
  exact frames_refreshPreview
    { session.resume (Key.ofText text) with
      expression := (Key.ofText text).apply (session.resume (Key.ofText text)).expression }
    history language

theorem frames_clear : Frames Session.clear :=
  fun _ _ _ => rfl

theorem frames_deleteLast : Frames deleteLast := by
  intro session history language
  unfold deleteLast
  by_cases hmode : session.mode = .showingError
  · rw [if_pos hmode, if_pos (show (framed session history language).mode = _ from hmode)]
    rfl
  · rw [if_neg hmode, if_neg (show (framed session history language).mode ≠ _ from hmode)]
    exact frames_refreshPreview
      { session with expression := String.ofList session.expression.toList.dropLast }
      history language

theorem frames_loadEntry (entry : Entry) : Frames (loadEntry · entry) := by
  intro session history language
  exact frames_refreshPreview
    { session with expression := entry.result, result := "", preview := "", mode := .idle }
    history language

namespace Frames

variable {f : Session → Session} (h : Frames f)
include h

theorem eq_framed (session : Session) :
    f session = framed (f session) session.history session.language :=
  h session session.history session.language

theorem history (session : Session) : (f session).history = session.history := by
  rw [h.eq_framed session]
  rfl

theorem language (session : Session) : (f session).language = session.language := by
  rw [h.eq_framed session]
  rfl

theorem untimed (session : Session) : untimed (f session) = f (untimed session) := by
  rw [RecordedTimes.untimed, h.history, h.language]
  exact (h _ _ _).symm

end Frames

theorem untimed_calculate (session : Session) (now : Nat) :
    untimed (session.calculate now) = (untimed session).calculate 0 := by
  rcases calculate_cases session now with
    ⟨hempty, h⟩ | ⟨value, hne, hvalue, h⟩ | ⟨fault, hne, hfault, h⟩
  · have hempty' : (untimed session).expression = "" := hempty
    rw [h, calculate_of_empty hempty']
  · have hne' : (untimed session).expression ≠ "" := hne
    have hvalue' : (untimed session).engine.evaluate (untimed session).expression = .ok value :=
      hvalue
    rw [h, calculate_of_ok hne' hvalue']
    change framed _ (untimedHistory (session.history.push _)) _ = _
    rw [untimedHistory_push]
    rfl
  · have hne' : (untimed session).expression ≠ "" := hne
    have hfault' : (untimed session).engine.evaluate (untimed session).expression =
        .error fault := hfault
    rw [h, calculate_of_error hne' hfault']
    rfl

theorem untimed_perform (session : Session) (action : Action) :
    untimed (session.perform action) = (untimed session).perform (untimedAction action) := by
  cases action with
  | input text =>
      exact (frames_input text).untimed session
  | clear => exact frames_clear.untimed session
  | deleteLast => exact frames_deleteLast.untimed session
  | calculate now => exact untimed_calculate session now
  | loadIndex index =>
      change untimed ((session.loadIndex? index).getD session) =
        ((untimed session).loadIndex? index).getD (untimed session)
      have hget : (untimed session).history.get? index =
          (session.history.get? index).map untimedEntry := get?_untimedHistory _ index
      rw [loadIndex?, loadIndex?, hget]
      cases session.history.get? index with
      | none => rfl
      | some entry => exact (frames_loadEntry entry).untimed session
  | loadEntry entry => exact (frames_loadEntry entry).untimed session
  | clearHistory => rfl
  | setLanguage language => rfl

theorem untimed_run (session : Session) (actions : List Action) :
    untimed (session.run actions) = (untimed session).run (actions.map untimedAction) := by
  induction actions generalizing session with
  | nil => rfl
  | cons action actions ih =>
      change untimed ((session.perform action).run actions) =
        ((untimed session).perform (untimedAction action)).run (actions.map untimedAction)
      rw [ih, untimed_perform]

end PocketCalculator.Proofs.RecordedTimes

import PocketCalculator.Proofs.CalculatorDisplay
import PocketCalculator.Proofs.CalculatorHistory
import PocketCalculator.Proofs.KeypadTabs

/-!
The display language. It only chooses the word for an error, and that word never goes on into a
calculation: keypads that differ in their languages and in the words that they show stay alike in
everything else.
-/

namespace PocketCalculator.Proofs.DisplayLanguage

open PocketCalculator.Calculator
open PocketCalculator.Calculator.Session
open PocketCalculator.Locale (Language)
open PocketCalculator.Proofs.CalculatorDisplay
open PocketCalculator.Proofs.CalculatorHistory
open PocketCalculator.Proofs.CalculatorRuns
open PocketCalculator.Proofs.KeypadTabs
open PocketCalculator.Proofs.RecordedTimes

/-- The session with another text in the place of an error label. -/
def relabelled (session : Session) (text : String) : Session :=
  { session with result := if session.mode = .showingError then text else session.result }

/-- The session without its error label and its language. -/
def hushed (session : Session) : Session :=
  framed (relabelled session "") session.history .english

theorem relabelled_of_ne {session : Session} (h : session.mode ≠ .showingError) (text : String) :
    relabelled session text = session := by
  rw [relabelled, if_neg h]

theorem hushed_relabelled (session : Session) (text : String) :
    hushed (relabelled session text) = hushed session := by
  by_cases h : session.mode = .showingError
  · simp [hushed, relabelled, h]
  · rw [relabelled_of_ne h]

theorem hushed_hushed (session : Session) : hushed (hushed session) = hushed session :=
  hushed_relabelled session ""

theorem hushed_of_frames {f : Session → Session} (hframes : Frames f)
    (hlabel : ∀ session, f (relabelled session "") = f session) (session : Session) :
    hushed (f session) = hushed (f (hushed session)) := by
  rw [show hushed session = framed (relabelled session "") _ _ from rfl, hframes, hlabel,
    ← hframes.history]
  rfl

theorem resume_relabelled (session : Session) (text : String) (key : Key) :
    (relabelled session text).resume key = session.resume key := by
  by_cases h : session.mode = .showingError
  · simp [resume, relabelled, h]
  · rw [relabelled_of_ne h]

theorem deleteLast_relabelled (session : Session) (text : String) :
    (relabelled session text).deleteLast = session.deleteLast := by
  by_cases h : session.mode = .showingError
  · simp [deleteLast, relabelled, h, Session.clear]
  · rw [relabelled_of_ne h]

theorem hushed_calculate (session : Session) (now : Nat) :
    hushed (session.calculate now) = hushed ((hushed session).calculate now) := by
  rcases calculate_cases session now with
    ⟨hempty, h⟩ | ⟨value, hne, hvalue, h⟩ | ⟨fault, hne, hfault, h⟩
  · have hempty' : (hushed session).expression = "" := hempty
    rw [h, calculate_of_empty hempty', hushed_hushed]
  · have hne' : (hushed session).expression ≠ "" := hne
    have hvalue' : (hushed session).engine.evaluate (hushed session).expression = .ok value :=
      hvalue
    rw [h, calculate_of_ok hne' hvalue']
    rfl
  · have hne' : (hushed session).expression ≠ "" := hne
    have hfault' : (hushed session).engine.evaluate (hushed session).expression =
        .error fault := hfault
    rw [h, calculate_of_error hne' hfault']
    rfl

/-- What is left of a session after an action depends on what was left of it before. -/
theorem hushed_perform (session : Session) (action : Action) :
    hushed (session.perform action) = hushed ((hushed session).perform action) := by
  have hload (entry : Entry) :
      hushed (session.loadEntry entry) = hushed ((hushed session).loadEntry entry) :=
    hushed_of_frames (frames_loadEntry entry) (fun _ => rfl) session
  cases action with
  | input text =>
      refine hushed_of_frames (frames_input text) ?_ session
      intro session
      rw [input, resume_relabelled]
      rfl
  | clear => exact hushed_of_frames frames_clear (fun _ => rfl) session
  | deleteLast =>
      exact hushed_of_frames frames_deleteLast (fun session => deleteLast_relabelled session "")
        session
  | calculate now => exact hushed_calculate session now
  | loadIndex index =>
      change hushed ((session.loadIndex? index).getD session) =
        hushed (((hushed session).loadIndex? index).getD (hushed session))
      rw [loadIndex?, loadIndex?, show (hushed session).history = session.history from rfl]
      cases session.history.get? index with
      | none => exact (hushed_hushed session).symm
      | some entry => exact hload entry
  | loadEntry entry => exact hload entry
  | clearHistory =>
      change framed (hushed session) _ _ = framed (hushed (hushed session)) _ _
      rw [hushed_hushed]
      rfl
  | setLanguage language => exact (hushed_hushed session).symm

/-- The keypad with its calculator hushed, and without the times in the history. -/
def veiled (keypad : Keypad) : Keypad :=
  { keypad with calculator := hushed (untimed keypad.calculator) }

/-- The action without its time, unless it sets the language. -/
def silent? : Keypad.Action → Option Keypad.Action
  | .press key _ => some (.press key 0)
  | .calculator (.setLanguage _) => none
  | .calculator action => some (.calculator (untimedAction action))
  | action => some action

/-- What an action does to a keypad whose calculator stays hushed. -/
def veiledStep (keypad : Keypad) (action : Keypad.Action) : Keypad :=
  { keypad.perform action with calculator := hushed (keypad.perform action).calculator }

theorem untimedAction_calculatorAction (key : String) (now : Nat) :
    untimedAction (Keypad.calculatorAction key now) = Keypad.calculatorAction key 0 := by
  unfold Keypad.calculatorAction
  split <;> rfl

theorem veiled_calculator (keypad : Keypad) (action : Action) :
    veiled { keypad with calculator := keypad.calculator.perform action } =
      veiledStep (veiled keypad) (.calculator (untimedAction action)) := by
  have hcalculator : hushed (untimed (keypad.calculator.perform action)) =
      hushed ((hushed (untimed keypad.calculator)).perform (untimedAction action)) := by
    rw [untimed_perform, hushed_perform]
  exact congrArg (Keypad.mk keypad.tab · keypad.converter) hcalculator

theorem veiled_of_calculator (keypad : Keypad) (tab : Tab) (converter : Converter.Session) :
    veiled { keypad with tab, converter } =
      ⟨tab, hushed (veiled keypad).calculator, converter⟩ :=
  congrArg (Keypad.mk tab · converter) (hushed_hushed (untimed keypad.calculator)).symm

theorem veiled_perform (keypad : Keypad) (action : Keypad.Action) :
    veiled (keypad.perform action) =
      (silent? action).elim (veiled keypad) (veiledStep (veiled keypad)) := by
  cases action with
  | press key now =>
      obtain ⟨tab, calculator, converter⟩ := keypad
      cases tab with
      | calculator =>
          have h := veiled_calculator ⟨.calculator, calculator, converter⟩
            (Keypad.calculatorAction key now)
          rw [untimedAction_calculatorAction] at h
          exact h
      | converter => exact veiled_of_calculator _ _ (converter.perform (Keypad.converterAction key))
  | setTab tab => exact veiled_of_calculator keypad tab keypad.converter
  | calculator action =>
      cases action with
      | setLanguage language => rfl
      | _ => exact veiled_calculator keypad _
  | converter action =>
      exact veiled_of_calculator keypad keypad.tab (keypad.converter.perform action)

theorem veiled_run_eq_foldl (keypad : Keypad) (actions : List Keypad.Action) :
    veiled (keypad.run actions) =
      (actions.filterMap silent?).foldl veiledStep (veiled keypad) := by
  have hpart : veiled (keypad.run actions) =
      ((arrivals keypad.tab actions).filterMap (silent? ∘ Prod.snd)).foldl veiledStep
        (veiled keypad) :=
    run_part veiled_perform keypad actions
  rw [hpart, ← List.filterMap_map, map_snd_arrivals]

theorem veiled_run {keypad other : Keypad} {actions otherActions : List Keypad.Action}
    (hveiled : veiled keypad = veiled other)
    (hactions : actions.filterMap silent? = otherActions.filterMap silent?) :
    veiled (keypad.run actions) = veiled (other.run otherActions) := by
  rw [veiled_run_eq_foldl, veiled_run_eq_foldl, hveiled, hactions]

/-- The language in use and the language of the last calculation, after one more action. -/
def heard : Language × Option Language → Action → Language × Option Language
  | (_, last), .setLanguage language => (language, last)
  | (language, _), .calculate _ => (language, some language)
  | languages, _ => languages

/-- The language in use at the last calculation of a run that starts in a language. -/
def calculatedIn? (language : Language) (actions : List Action) : Option Language :=
  (actions.foldl heard (language, none)).2

/-- An error is shown in the language of the last calculation. -/
structure Labelled (languages : Language × Option Language) (session : Session) : Prop where
  language : session.language = languages.1
  label : session.mode = .showingError →
    ∃ language ∈ languages.2, session.result = language.labels.error

theorem input_mode (session : Session) (text : String) : (session.input text).mode = .idle := by
  rw [input, refreshPreview_mode]
  exact resume_mode _

theorem deleteLast_mode (session : Session) : session.deleteLast.mode ≠ .showingError := by
  unfold deleteLast
  split
  · nofun
  next hmode => rwa [refreshPreview_mode]

theorem labelled_perform {languages : Language × Option Language} {session : Session}
    (hcoherent : Coherent session) (h : Labelled languages session) (action : Action) :
    Labelled (heard languages action) (session.perform action) := by
  have hload (entry : Entry) : Labelled languages (session.loadEntry entry) := by
    refine ⟨?_, ?_⟩
    · rw [← h.language]
      exact (frames_loadEntry entry).language session
    · rw [loadEntry, refreshPreview_mode]
      exact fun hmode => by cases hmode
  cases action with
  | input text =>
      refine ⟨?_, fun hmode => ?_⟩
      · rw [show (heard languages (.input text)).1 = _ from h.language.symm]
        exact (frames_input text).language session
      · rw [show (session.perform (.input text)).mode = _ from input_mode session text] at hmode
        cases hmode
  | clear => exact ⟨h.language, fun hmode => by cases hmode⟩
  | deleteLast =>
      refine ⟨?_, fun hmode => absurd hmode (deleteLast_mode session)⟩
      rw [show (heard languages .deleteLast).1 = _ from h.language.symm]
      exact frames_deleteLast.language session
  | calculate now =>
      change Labelled (languages.1, some languages.1) (session.calculate now)
      rcases calculate_cases session now with
        ⟨hempty, hcalculate⟩ | ⟨value, -, -, hcalculate⟩ | ⟨fault, -, -, hcalculate⟩ <;>
        rw [hcalculate]
      · -- An error stands over a buffer that is not empty, so none is shown here.
        refine ⟨h.language, fun hmode => ?_⟩
        rw [Coherent, hmode] at hcoherent
        exact absurd hempty hcoherent.expression
      · exact ⟨h.language, fun hmode => by cases hmode⟩
      · exact ⟨h.language, fun _ => ⟨languages.1, rfl, by rw [← h.language]⟩⟩
  | loadIndex index =>
      rcases perform_loadIndex session index with ⟨entry, -, hperform⟩ | hperform <;>
        rw [hperform]
      · exact hload entry
      · exact h
  | loadEntry entry => exact hload entry
  | clearHistory => exact ⟨h.language, h.label⟩
  | setLanguage language => exact ⟨rfl, h.label⟩

theorem labelled_run {languages : Language × Option Language} {session : Session}
    (hcoherent : Coherent session) (h : Labelled languages session) (actions : List Action) :
    Labelled (actions.foldl heard languages) (session.run actions) := by
  induction actions generalizing languages session with
  | nil => exact h
  | cons action rest ih =>
      exact ih (coherent_perform session action hcoherent) (labelled_perform hcoherent h action)

/-- After a run of a keypad an error is shown in the language in use at the last calculation. -/
theorem result_of_showingError {settings : Settings} {actions : List Keypad.Action}
    (hmode : ((Keypad.start settings).run actions).calculator.mode = .showingError) :
    ∃ language ∈ calculatedIn? settings.language
        ((arrivals .calculator actions).filterMap toCalculator?),
      ((Keypad.start settings).run actions).calculator.result = language.labels.error := by
  have hrun : ((Keypad.start settings).run actions).calculator = Session.run _ _ :=
    run_part perform_calculator (Keypad.start settings) actions
  rw [hrun] at hmode ⊢
  exact (labelled_run (coherent_of_idle rfl ⟨rfl, rfl⟩) ⟨rfl, fun h => by cases h⟩ _).label hmode

/-- The keypads show the same, except for the words for errors. -/
structure Alike (keypad other : Keypad) : Prop where
  tab : keypad.tab = other.tab
  converter : keypad.converter = other.converter
  expression : keypad.calculator.expression = other.calculator.expression
  preview : keypad.calculator.preview = other.calculator.preview
  mode : keypad.calculator.mode = other.calculator.mode
  history : pairs keypad.calculator.history = pairs other.calculator.history
  result : keypad.calculator.mode ≠ .showingError →
    keypad.calculator.result = other.calculator.result

theorem pairs_untimedHistory (history : History) :
    pairs (untimedHistory history) = pairs history := by
  simp [pairs, untimedHistory, untimedEntry]

theorem alike_of_veiled {keypad other : Keypad} (h : veiled keypad = veiled other) :
    Alike keypad other := by
  have hcalculator : hushed (untimed keypad.calculator) = hushed (untimed other.calculator) :=
    congrArg Keypad.calculator h
  have hmode : keypad.calculator.mode = other.calculator.mode :=
    (congrArg Session.mode hcalculator :)
  refine ⟨(congrArg Keypad.tab h :), (congrArg Keypad.converter h :),
    (congrArg Session.expression hcalculator :), (congrArg Session.preview hcalculator :),
    hmode, ?_, ?_⟩
  · rw [← pairs_untimedHistory, ← pairs_untimedHistory other.calculator.history]
    exact congrArg (fun session => pairs session.history) hcalculator
  · intro hne
    have hown : relabelled (untimed keypad.calculator) "" = untimed keypad.calculator :=
      relabelled_of_ne (show (untimed keypad.calculator).mode ≠ _ from hne) ""
    have hother : relabelled (untimed other.calculator) "" = untimed other.calculator :=
      relabelled_of_ne (show (untimed other.calculator).mode ≠ _ from hmode ▸ hne) ""
    have hresult := congrArg Session.result hcalculator
    rwa [hushed, hushed, hown, hother] at hresult

/-- Two runs that differ only in when languages are set, and which, and in the times, on keypads
whose settings differ only in the language, come to keypads that show the same, except that each
word for an error is in the language in use at the last calculation of its own run. Such a word
goes no further: with any text in its place, whatever is done next shows the same. -/
theorem language_never_matters (settings : Settings) (language : Language)
    (actions otherActions : List Keypad.Action)
    (hactions : actions.filterMap silent? = otherActions.filterMap silent?) :
    let keypad := (Keypad.start settings).run actions
    let other := (Keypad.start { settings with language }).run otherActions
    Alike keypad other ∧
      (keypad.calculator.mode = .showingError →
        (∃ spoken ∈ calculatedIn? settings.language
            ((arrivals .calculator actions).filterMap toCalculator?),
          keypad.calculator.result = spoken.labels.error) ∧
        ∃ spoken ∈ calculatedIn? language
            ((arrivals .calculator otherActions).filterMap toCalculator?),
          other.calculator.result = spoken.labels.error) ∧
      ∀ text later,
        Alike ({ keypad with calculator := relabelled keypad.calculator text }.run later)
          (keypad.run later) := by
  intro keypad other
  have halike : Alike keypad other := alike_of_veiled (veiled_run rfl hactions)
  refine ⟨halike, ?_, ?_⟩
  · intro hmode
    exact ⟨result_of_showingError hmode, result_of_showingError (halike.mode ▸ hmode)⟩
  · intro text later
    have hveiled : veiled { keypad with calculator := relabelled keypad.calculator text } =
        veiled keypad :=
      congrArg (Keypad.mk keypad.tab · keypad.converter)
        (hushed_relabelled (untimed keypad.calculator) text)
    exact alike_of_veiled (veiled_run hveiled rfl)

/-- One divided by zero. -/
def division : List Keypad.Action :=
  [.press "1" 0, .press "÷" 0, .press "0" 0, .press "=" 7]

/-- The same in Odia, and in English again once the error is shown. -/
def divisionInOdia : List Keypad.Action :=
  [.press "1" 2, .calculator (.setLanguage .odia), .press "÷" 3, .press "0" 4, .press "=" 5,
    .calculator (.setLanguage .english)]

theorem language_never_matters_division :
    division.filterMap silent? = divisionInOdia.filterMap silent? ∧
      Alike ((Keypad.start {}).run division)
        ((Keypad.start { language := .hindi }).run divisionInOdia) ∧
      ((Keypad.start {}).run division).calculator.result = Language.english.labels.error ∧
      ((Keypad.start { language := .hindi }).run divisionInOdia).calculator.result =
        Language.odia.labels.error := by
  have hactions : division.filterMap silent? = divisionInOdia.filterMap silent? := by decide
  have hmode : ((Keypad.start {}).run division).calculator.mode = .showingError := by
    decide +kernel
  obtain ⟨halike, hlabels, -⟩ := language_never_matters {} .hindi _ _ hactions
  obtain ⟨⟨spoken, hspoken, hresult⟩, spoken', hspoken', hresult'⟩ := hlabels hmode
  cases hspoken
  cases hspoken'
  exact ⟨hactions, halike, hresult, hresult'⟩

end PocketCalculator.Proofs.DisplayLanguage

import PocketCalculator.Keypad.Basic
import PocketCalculator.Proofs.KeySplitting
import PocketCalculator.Proofs.RecordedTimes

namespace PocketCalculator.Proofs.KeypadTabs

open PocketCalculator.Locale (delocalize delocalizeChar)
open PocketCalculator.Proofs.KeySplitting
open PocketCalculator.Proofs.RecordedTimes

/-- The actions of a run, each with the tab that it finds in front. -/
def arrivals : Tab → List Keypad.Action → List (Tab × Keypad.Action)
  | _, [] => []
  | tab, .setTab next :: rest => (tab, .setTab next) :: arrivals next rest
  | tab, action :: rest => (tab, action) :: arrivals tab rest

/-- What reaches the calculator. -/
def toCalculator? : Tab × Keypad.Action → Option Calculator.Session.Action
  | (.calculator, .press "AC" _) => some .clear
  | (.calculator, .press "DEL" _) => some .deleteLast
  | (.calculator, .press "=" now) => some (.calculate now)
  | (.calculator, .press key _) => some (.input key)
  | (_, .calculator action) => some action
  | _ => none

/-- What reaches the converter. -/
def toConverter? : Tab × Keypad.Action → Option Converter.Session.Action
  | (.converter, .press "AC" _) => some .clear
  | (.converter, .press "DEL" _) => some .deleteLast
  | (.converter, .press key _) => some (.push key)
  | (_, .converter action) => some action
  | _ => none

theorem arrivals_cons (keypad : Keypad) (action : Keypad.Action) (rest : List Keypad.Action) :
    arrivals keypad.tab (action :: rest) =
      (keypad.tab, action) :: arrivals (keypad.perform action).tab rest := by
  cases action with
  | press key now =>
      have htab : (keypad.press key now).tab = keypad.tab := by
        unfold Keypad.press
        split <;> rfl
      rw [Keypad.perform, htab]
      rfl
  | setTab tab => rfl
  | calculator action => rfl
  | converter action => rfl

theorem map_snd_arrivals (tab : Tab) (actions : List Keypad.Action) :
    (arrivals tab actions).map Prod.snd = actions := by
  fun_induction arrivals tab actions with
  | case1 tab => rfl
  | case2 tab next rest ih => rw [List.map_cons, ih]
  | case3 tab action rest _ ih => rw [List.map_cons, ih]

theorem mem_of_mem_arrivals {tab found : Tab} {action : Keypad.Action}
    {actions : List Keypad.Action} (h : (found, action) ∈ arrivals tab actions) :
    action ∈ actions := by
  rw [← map_snd_arrivals tab actions]
  exact List.mem_map_of_mem h

theorem perform_calculator (keypad : Keypad) (action : Keypad.Action) :
    (keypad.perform action).calculator =
      (toCalculator? (keypad.tab, action)).elim keypad.calculator keypad.calculator.perform := by
  cases action with
  | press key now =>
      rw [Keypad.perform, Keypad.press]
      cases keypad.tab with
      | calculator =>
          change keypad.calculator.perform (Keypad.calculatorAction key now) = _
          unfold Keypad.calculatorAction toCalculator?
          split <;> simp_all
      | converter => rfl
  | setTab tab => cases keypad.tab <;> rfl
  | calculator action => cases keypad.tab <;> rfl
  | converter action => cases keypad.tab <;> rfl

theorem perform_converter (keypad : Keypad) (action : Keypad.Action) :
    (keypad.perform action).converter =
      (toConverter? (keypad.tab, action)).elim keypad.converter keypad.converter.perform := by
  cases action with
  | press key now =>
      rw [Keypad.perform, Keypad.press]
      cases keypad.tab with
      | calculator => rfl
      | converter =>
          change keypad.converter.perform (Keypad.converterAction key) = _
          unfold Keypad.converterAction toConverter?
          split <;> simp_all
  | setTab tab => cases keypad.tab <;> rfl
  | calculator action => cases keypad.tab <;> rfl
  | converter action => cases keypad.tab <;> rfl

/-- A part of the keypad that moves only when something reaches it goes through a run as it would
on its own. -/
theorem run_part {State Event : Type} {perform : State → Event → State} {part : Keypad → State}
    {reaching? : Tab × Keypad.Action → Option Event}
    (hperform : ∀ keypad action, part (keypad.perform action) =
      (reaching? (keypad.tab, action)).elim (part keypad) (perform (part keypad)))
    (keypad : Keypad) (actions : List Keypad.Action) :
    part (keypad.run actions) =
      ((arrivals keypad.tab actions).filterMap reaching?).foldl perform (part keypad) := by
  induction actions generalizing keypad with
  | nil => rfl
  | cons action rest ih =>
      rw [arrivals_cons, List.filterMap_cons]
      change part ((keypad.perform action).run rest) = _
      rw [ih, hperform]
      cases reaching? (keypad.tab, action) <;> rfl

theorem push_of_mem {key : String} {c : Char} (hmem : c ∈ key.toList)
    (hdigit : ¬ (delocalizeChar c).isDigit) (hpoint : c ≠ '.') (session : Converter.Session) :
    session.push key = session := by
  have hsame : delocalizeChar c = c := (delocalizeChar_eq_or c).resolve_right hdigit
  have hrefused : ¬ Converter.Session.accepts key := by
    intro haccepts
    rw [Converter.Session.accepts, Bool.and_eq_true, List.all_eq_true] at haccepts
    have hmem' : c ∈ (delocalize key).toList := by
      rw [delocalize, String.toList_ofList]
      exact List.mem_map.mpr ⟨c, hmem, hsame⟩
    rcases Bool.or_eq_true _ _ ▸ haccepts.2 c hmem' with h | h
    · exact hdigit (hsame.symm ▸ h)
    · exact hpoint (beq_iff_eq.mp h)
  exact if_neg hrefused

/-- After any run the calculator is where the keys pressed on its tab and its own actions take a
new calculator, also when they come at other times, up to the times in the history. The converter
is where the keys pressed on its tab and its own actions take a new converter, and of those keys
the ones that are not all digits and points do nothing. -/
theorem tabs_isolated (settings : Settings) (actions : List Keypad.Action) :
    let keypad := (Keypad.start settings).run actions
    let arrived := arrivals .calculator actions
    let calculator :=
      Calculator.Session.start settings.engine settings.historyCapacity settings.language
    keypad.calculator = calculator.run (arrived.filterMap toCalculator?) ∧
      (∀ later, later.map untimedAction = (arrived.filterMap toCalculator?).map untimedAction →
        untimed (calculator.run later) = untimed keypad.calculator) ∧
      keypad.converter =
        (Converter.Session.start settings.defaultCategory).run
          (arrived.filterMap toConverter?) ∧
      ∀ key c, c ∈ key.toList → ¬ (delocalizeChar c).isDigit → c ≠ '.' →
        ∀ converter : Converter.Session, converter.push key = converter := by
  intro keypad arrived calculator
  have hcalculator : keypad.calculator = calculator.run (arrived.filterMap toCalculator?) :=
    run_part perform_calculator (Keypad.start settings) actions
  refine ⟨hcalculator, ?_, run_part perform_converter (Keypad.start settings) actions, ?_⟩
  · intro later hlater
    rw [hcalculator, untimed_run, untimed_run, hlater]
  · intro key c hmem hdigit hpoint converter
    exact push_of_mem hmem hdigit hpoint converter

end PocketCalculator.Proofs.KeypadTabs

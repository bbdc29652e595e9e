import PocketCalculator.Proofs.DigitGlyphs
import PocketCalculator.Proofs.DisplayLanguage

namespace PocketCalculator.Proofs.DigitKeys

open PocketCalculator.Calculator
open PocketCalculator.Locale
open PocketCalculator.Proofs.DigitGlyphs
open PocketCalculator.Proofs.DisplayLanguage (untimedAction_calculatorAction)
open PocketCalculator.Proofs.KeySplitting
open PocketCalculator.Proofs.RecordedTimes
open PocketCalculator.Proofs.TypedExpression (eq_of_map_delocalizeChar)

theorem delocalize_delocalize (text : String) : delocalize (delocalize text) = delocalize text :=
  delocalize_eq_self_iff.mpr (asciiDigits_delocalize text)

theorem eq_of_delocalize_eq {key text : String} (h : delocalize key = text)
    (hdigit : ∀ c ∈ text.toList, c.isDigit = false) : key = text := by
  rw [← String.toList_inj, delocalize, String.toList_ofList] at h
  exact String.toList_inj.mp (eq_of_map_delocalizeChar h hdigit)

theorem delocalize_mem_iff {texts : List String}
    (hdigit : ∀ text ∈ texts, text.toList.all fun c => !c.isDigit)
    (hfixed : ∀ text ∈ texts, delocalize text = text) (key : String) :
    delocalize key ∈ texts ↔ key ∈ texts := by
  constructor
  · intro h
    have hdigits : ∀ c ∈ (delocalize key).toList, c.isDigit = false := by
      simpa using hdigit _ h
    rwa [← eq_of_delocalize_eq rfl hdigits] at h
  · intro h
    rwa [hfixed key h]

theorem ofText_delocalize {key : String} (h : delocalize key ≠ "1/x") :
    Key.ofText (delocalize key) = Key.ofText key := by
  have hfixed : ∀ text ∈ ["x²", "xʸ", "+/-", "√", "Mod"], delocalize text = text := by
    decide
  have hnamed := delocalize_mem_iff (by decide) hfixed key
  by_cases hkey : key ∈ ["x²", "xʸ", "+/-", "√", "Mod"]
  · rw [hfixed key hkey]
  · have hreciprocal : key ≠ "1/x" := by
      rintro rfl
      exact h (by decide)
    have hkey' := mt hnamed.mp hkey
    rw [ofText_of_ne (by simp_all), ofText_of_ne (by simp_all), delocalize_delocalize]

theorem input_congr {text text' : String} (h : Key.ofText text = Key.ofText text')
    (session : Session) : session.input text = session.input text' := by
  rw [Session.input, Session.input, h]

theorem calculator_delocalize {key : String} (h : delocalize key ≠ "1/x") (now : Nat)
    (session : Session) :
    session.perform (Keypad.calculatorAction (delocalize key) now) =
      session.perform (Keypad.calculatorAction key now) := by
  have hfixed : ∀ text ∈ ["AC", "DEL", "="], delocalize text = text := by
    decide
  have hnamed := delocalize_mem_iff (by decide) hfixed key
  by_cases hkey : key ∈ ["AC", "DEL", "="]
  · rw [hfixed key hkey]
  · rw [calculatorAction_of_ne (mt hnamed.mp hkey), calculatorAction_of_ne hkey]
    exact input_congr (ofText_delocalize h) session

theorem push_delocalize (key : String) (session : Converter.Session) :
    session.push (delocalize key) = session.push key := by
  have haccepts : Converter.Session.accepts (delocalize key) = Converter.Session.accepts key := by
    rw [Converter.Session.accepts, Converter.Session.accepts, delocalize_delocalize]
  rw [Converter.Session.push, Converter.Session.push, haccepts, delocalize_delocalize]

theorem converterAction_of_ne {key : String} (h : key ∉ ["AC", "DEL"]) :
    Keypad.converterAction key = .push key := by
  unfold Keypad.converterAction
  split <;> simp_all

theorem converter_delocalize (key : String) (session : Converter.Session) :
    session.perform (Keypad.converterAction (delocalize key)) =
      session.perform (Keypad.converterAction key) := by
  have hfixed : ∀ text ∈ ["AC", "DEL"], delocalize text = text := by
    decide
  have hnamed := delocalize_mem_iff (by decide) hfixed key
  by_cases hkey : key ∈ ["AC", "DEL"]
  · rw [hfixed key hkey]
  · rw [converterAction_of_ne (mt hnamed.mp hkey), converterAction_of_ne hkey]
    exact push_delocalize key session

theorem press_delocalize {key : String} (h : delocalize key ≠ "1/x") (keypad : Keypad)
    (now : Nat) : keypad.press (delocalize key) now = keypad.press key now := by
  unfold Keypad.press
  split
  · rw [calculator_delocalize h]
  · rw [converter_delocalize]

/-- The keypad without the times in the history. -/
def timeless (keypad : Keypad) : Keypad :=
  { keypad with calculator := untimed keypad.calculator }

/-- The action at time zero. -/
def timelessAction : Keypad.Action → Keypad.Action
  | .press key _ => .press key 0
  | .calculator action => .calculator (untimedAction action)
  | action => action

theorem timeless_perform (keypad : Keypad) (action : Keypad.Action) :
    timeless (keypad.perform action) = (timeless keypad).perform (timelessAction action) := by
  have hcalculator (action : Session.Action) :
      timeless { keypad with calculator := keypad.calculator.perform action } =
        { keypad with calculator := (untimed keypad.calculator).perform (untimedAction action) } :=
    congrArg (Keypad.mk keypad.tab · keypad.converter) (untimed_perform keypad.calculator action)
  cases action with
  | press key now =>
      obtain ⟨tab, calculator, converter⟩ := keypad
      cases tab with
      | calculator =>
          have h := hcalculator (Keypad.calculatorAction key now)
          rw [untimedAction_calculatorAction] at h
          exact h
      | converter => rfl
  | setTab tab => rfl
  | calculator action => exact hcalculator action
  | converter action => rfl

/-- Whether two actions are the same, or presses of keys that differ at most in their time and in
the scripts of their digits. The reciprocal key is known by the digit on it. -/
inductive Respells : Keypad.Action → Keypad.Action → Prop where
  | same (action : Keypad.Action) : Respells action action
  | press {key key' : String} (now now' : Nat) :
      List.Forall₂ SameDigit key.toList key'.toList → delocalize key ≠ "1/x" →
        Respells (.press key now) (.press key' now')

theorem timeless_press {key key' : String} (h : delocalize key = delocalize key')
    (hreciprocal : delocalize key ≠ "1/x") (keypad : Keypad) (now now' : Nat) :
    timeless (keypad.press key now) = timeless (keypad.press key' now') := by
  calc timeless (keypad.press key now)
    _ = (timeless keypad).press key 0 := timeless_perform keypad (.press key now)
    _ = (timeless keypad).press (delocalize key) 0 := (press_delocalize hreciprocal _ 0).symm
    _ = (timeless keypad).press (delocalize key') 0 := by rw [h]
    _ = (timeless keypad).press key' 0 := press_delocalize (h ▸ hreciprocal) _ 0
    _ = timeless (keypad.press key' now') := (timeless_perform keypad (.press key' now')).symm

theorem timeless_perform_congr {keypad keypad' : Keypad} (h : timeless keypad = timeless keypad')
    {action action' : Keypad.Action} (hrespells : Respells action action') :
    timeless (keypad.perform action) = timeless (keypad'.perform action') := by
  rw [timeless_perform, h, ← timeless_perform]
  cases hrespells with
  | same => rfl
  | press now now' hdigits hreciprocal =>
      exact timeless_press (delocalize_eq_iff.mpr hdigits) hreciprocal keypad' now now'

theorem timeless_run_congr {keypad keypad' : Keypad} (h : timeless keypad = timeless keypad')
    {actions actions' : List Keypad.Action} (hrespells : List.Forall₂ Respells actions actions') :
    timeless (keypad.run actions) = timeless (keypad'.run actions') := by
  induction hrespells generalizing keypad keypad' with
  | nil => exact h
  | cons hfirst _ ih => exact ih (timeless_perform_congr h hfirst)

/-- Pressing keys with one ASCII form, other than `1/x`, leads any keypad to the same keypad on
either tab, up to the times in the history. So a run whose keys are respelled in the digits of other
scripts, mixed freely, goes through the same keypads. -/
theorem digit_scripts_interchangeable (keypad : Keypad) :
    (∀ key key' now now', delocalize key = delocalize key' → delocalize key ≠ "1/x" →
      timeless (keypad.press key now) = timeless (keypad.press key' now')) ∧
    ∀ actions actions', List.Forall₂ Respells actions actions' → ∀ count,
      timeless (keypad.run (actions.take count)) =
        timeless (keypad.run (actions'.take count)) := by
  constructor
  · intro key key' now now' h hreciprocal
    exact timeless_press h hreciprocal keypad now now'
  · intro actions actions' hrespells count
    exact timeless_run_congr rfl (List.forall₂_take count hrespells)

/-- Twelve and three, summed up. -/
def sum : List Keypad.Action :=
  [.press "12" 0, .press "+" 1, .press "3" 2, .press "=" 3]

/-- The same in Tamil, Bengali and Hindi digits, at other times. -/
def sumInScripts : List Keypad.Action :=
  [.press "௧২" 5, .press "+" 6, .press "३" 7, .press "=" 8]

theorem digit_scripts_interchangeable_sum :
    List.Forall₂ Respells sum sumInScripts ∧
      timeless ((Keypad.start {}).run sum) = timeless ((Keypad.start {}).run sumInScripts) ∧
      ((Keypad.start {}).run sumInScripts).calculator.result = "15" := by
  have hpress (key key' : String) (now now' : Nat) (h : delocalize key = delocalize key')
      (hreciprocal : delocalize key ≠ "1/x") : Respells (.press key now) (.press key' now') :=
    .press now now' (delocalize_eq_iff.mp h) hreciprocal
  have hrespells : List.Forall₂ Respells sum sumInScripts :=
    .cons (hpress _ _ 0 5 (by decide) (by decide)) <|
      .cons (hpress _ _ 1 6 (by decide) (by decide)) <|
        .cons (hpress _ _ 2 7 (by decide) (by decide)) <|
          .cons (hpress _ _ 3 8 (by decide) (by decide)) .nil
  exact ⟨hrespells,
    (digit_scripts_interchangeable (Keypad.start {})).2 sum sumInScripts hrespells 4,
    by decide +kernel⟩

/-- With another digit on it, the reciprocal key is typed as it stands. -/
example : ((Keypad.start {}).press "1/x" 0).calculator.expression = "1/(" ∧
    ((Keypad.start {}).press "१/x" 0).calculator.expression = "1/x" := by
  decide +kernel

end PocketCalculator.Proofs.DigitKeys

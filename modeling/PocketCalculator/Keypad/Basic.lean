import PocketCalculator.Calculator.Session
import PocketCalculator.Converter.Session
import PocketCalculator.Settings.Basic

namespace PocketCalculator

inductive Tab where
  | calculator
  | converter
deriving DecidableEq, Repr, Inhabited

namespace Tab

def name : Tab → String
  | calculator => "calculator"
  | converter => "converter"

/-- The tab with a name, in any case and perhaps shortened to four letters. -/
def ofName? (name : String) : Option Tab :=
  match Text.lower name with
  | "calc" | "calculator" => some calculator
  | "conv" | "converter" => some converter
  | _ => none

end Tab

structure Keypad where
  tab : Tab
  calculator : Calculator.Session
  converter : Converter.Session
deriving DecidableEq, Repr

namespace Keypad

def start (settings : Settings) : Keypad :=
  { tab := .calculator
    calculator :=
      Calculator.Session.start settings.engine settings.historyCapacity settings.language
    converter := Converter.Session.start settings.defaultCategory }

def setTab (keypad : Keypad) (tab : Tab) : Keypad := { keypad with tab }

def language (keypad : Keypad) : Locale.Language := keypad.calculator.language

def setLanguage (keypad : Keypad) (language : Locale.Language) : Keypad :=
  { keypad with calculator := keypad.calculator.setLanguage language }

def calculatorAction (key : String) (now : Nat) : Calculator.Session.Action :=
  match key with
  | "AC" => .clear
  | "DEL" => .deleteLast
  | "=" => .calculate now
  | key => .input key

def converterAction (key : String) : Converter.Session.Action :=
  match key with
  | "AC" => .clear
  | "DEL" => .deleteLast
  | key => .push key

/-- Presses a key on the tab in front. The time goes into the history. -/
def press (keypad : Keypad) (key : String) (now : Nat) : Keypad :=
  match keypad.tab with
  | .calculator =>
    { keypad with calculator := keypad.calculator.perform (calculatorAction key now) }
  | .converter => { keypad with converter := keypad.converter.perform (converterAction key) }

/-- What can be done with a keypad: keys, tabs, and actions on one of the two sessions whatever
the tab in front. -/
inductive Action where
  | press (key : String) (now : Nat)
  | setTab (tab : Tab)
  | calculator (action : Calculator.Session.Action)
  | converter (action : Converter.Session.Action)
deriving DecidableEq, Repr

def perform (keypad : Keypad) : Action → Keypad
  | .press key now => keypad.press key now
  | .setTab tab => keypad.setTab tab
  | .calculator action => { keypad with calculator := keypad.calculator.perform action }
  | .converter action => { keypad with converter := keypad.converter.perform action }

def run (keypad : Keypad) (actions : List Action) : Keypad := actions.foldl perform keypad

inductive Fault where
  | unit (fault : Measure.UnitFault)
  | unknownLanguage (code : String)
  | unknownTab (name : String)
  | historyNotFound (index : Nat)
deriving DecidableEq, Repr

namespace Fault

def message : Fault → String
  | unit fault => fault.message
  | unknownLanguage code => "Unknown language: " ++ code
  | unknownTab name => "Unknown tab: " ++ name
  | historyNotFound index => "History entry not found: " ++ index.repr

end Fault

def parseLanguage (code : String) : Except Fault Locale.Language :=
  match Locale.Language.ofCode? code with
  | some language => .ok language
  | none => .error (.unknownLanguage code)

def parseTab (name : String) : Except Fault Tab :=
  match Tab.ofName? name with
  | some tab => .ok tab
  | none => .error (.unknownTab name)

def parseCategory (name : String) : Except Fault Measure.Category :=
  (Measure.Category.ofName name).mapError .unit

def parseUnit (symbol : String) : Except Fault Measure.MeasureUnit :=
  (Measure.MeasureUnit.ofSymbol symbol).mapError .unit

/-- Loads a recorded result into the calculator, the newest having index zero. -/
def loadIndex (keypad : Keypad) (index : Nat) : Except Fault Keypad :=
  match keypad.calculator.loadIndex? index with
  | some calculator => .ok { keypad with calculator }
  | none => .error (.historyNotFound index)

/-- Selects units of the converter's category, given by their symbols. -/
def selectUnits (keypad : Keypad) (source target : String) : Except Fault Keypad :=
  match parseUnit source with
  | .error fault => .error fault
  | .ok source =>
    match parseUnit target with
    | .error fault => .error fault
    | .ok target =>
      match keypad.converter.setUnits source target with
      | .error fault => .error (.unit fault)
      | .ok converter => .ok { keypad with converter }

end Keypad

end PocketCalculator

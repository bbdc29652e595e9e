import PocketCalculator.Decimal.Leading
import PocketCalculator.Locale.Digits
import PocketCalculator.Measure.Conversion

namespace PocketCalculator.Converter

open PocketCalculator.Measure

structure Session where
  category : Category
  source : MeasureUnit
  target : MeasureUnit
  input : String
deriving DecidableEq, Repr

namespace Session

def start (category : Category) : Session :=
  ⟨category, category.defaultPair.1, category.defaultPair.2, ""⟩

def setCategory (_ : Session) (category : Category) : Session := start category

/-- Selects two units of the open category. The first of them that lies outside is the fault. -/
def setUnits (session : Session) (source target : MeasureUnit) : Except UnitFault Session :=
  if !session.category.contains source then .error (.wrongCategory source session.category)
  else if !session.category.contains target then .error (.wrongCategory target session.category)
  else .ok { session with source, target }

def swapUnits (session : Session) : Session :=
  { session with source := session.target, target := session.source }

def setInput (session : Session) (text : String) : Session :=
  { session with input := Locale.delocalize text }

/-- Whether a text can be typed into a converter: digits of any script and points. -/
def accepts (text : String) : Bool :=
  let cs := (Locale.delocalize text).toList
  !cs.isEmpty && cs.all fun c => c.isDigit || c == '.'

/-- Types a text; other texts than digits and points are ignored. -/
def push (session : Session) (text : String) : Session :=
  if accepts text then { session with input := session.input ++ Locale.delocalize text }
  else session

def deleteLast (session : Session) : Session :=
  { session with input := String.ofList session.input.toList.dropLast }

def clear (session : Session) : Session := { session with input := "" }

/-- The converted number. A text that starts with no number counts as zero. -/
def value (session : Session) : Float :=
  convert ((Decimal.leadingNumber? session.input).getD 0) session.source session.target
    session.category

def result (session : Session) : String := formatConversion session.value

inductive Action where
  | setCategory (category : Category)
  | setUnits (source target : MeasureUnit)
  | swapUnits
  | setInput (text : String)
  | push (text : String)
  | deleteLast
  | clear
deriving DecidableEq, Repr

/-- The session after an action. Units that are refused change nothing. -/
def perform (session : Session) : Action → Session
  | .setCategory category => session.setCategory category
  | .setUnits source target =>
    match session.setUnits source target with
    | .ok session' => session'
    | .error _ => session
  | .swapUnits => session.swapUnits
  | .setInput text => session.setInput text
  | .push text => session.push text
  | .deleteLast => session.deleteLast
  | .clear => session.clear

def run (session : Session) (actions : List Action) : Session := actions.foldl perform session

end Session

end PocketCalculator.Converter

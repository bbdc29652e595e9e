import PocketCalculator.Calculation.Engine
import PocketCalculator.Calculator.Key
import PocketCalculator.History
import PocketCalculator.Locale.Labels

namespace PocketCalculator.Calculator

inductive Mode where
  | idle
  | showingResult
  | showingError
deriving DecidableEq, Repr, Inhabited

/-- `result` holds the last result, or the word for an error in mode `showingError`. -/
structure Session where
  engine : Calculation.Engine
  expression : String
  result : String
  preview : String
  mode : Mode
  history : History
  language : Locale.Language
deriving DecidableEq, Repr

namespace Session

def start (engine : Calculation.Engine) (capacity : Nat) (language : Locale.Language) : Session :=
  ⟨engine, "", "", "", .idle, History.empty capacity, language⟩

def setLanguage (session : Session) (language : Locale.Language) : Session :=
  { session with language }

/-- Whether an expression ends in a way that makes a preview worth trying. -/
def endsComplete (expression : String) : Bool :=
  match expression.toList.getLast? with
  | some c => c.isDigit || c == ')'
  | none => false

/-- The value shown while an expression is typed, empty if there is none. -/
def previewOf (engine : Calculation.Engine) (expression : String) : String :=
  if endsComplete expression then
    match engine.evaluate expression with
    | .ok value => value
    | .error _ => ""
  else ""

def refreshPreview (session : Session) : Session :=
  if session.mode = .idle then
    { session with preview := previewOf session.engine session.expression }
  else session

/-- Makes the session ready for a key. A displayed result becomes the buffer if the key goes on
from it; otherwise the buffer starts empty. -/
def resume (session : Session) (key : Key) : Session :=
  match session.mode with
  | .idle => session
  | .showingResult =>
    { session with
      expression := if key.isBinaryOperator || key.isWrapper then session.result else ""
      result := ""
      mode := .idle }
  | .showingError => { session with expression := "", result := "", mode := .idle }

def input (session : Session) (text : String) : Session :=
  let key := Key.ofText text
  let ready := session.resume key
  refreshPreview { ready with expression := key.apply ready.expression }

def clear (session : Session) : Session :=
  { session with expression := "", result := "", preview := "", mode := .idle }

/-- Removes the last character of the buffer. An error is cleared as a whole. -/
def deleteLast (session : Session) : Session :=
  if session.mode = .showingError then session.clear
  else
    refreshPreview
      { session with expression := String.ofList session.expression.toList.dropLast }

/-- Evaluates the buffer, unless it is empty, and records a success. -/
def calculate (session : Session) (now : Nat) : Session :=
  if session.expression = "" then session
  else
    match session.engine.evaluate session.expression with
    | .ok value =>
      { session with
        preview := ""
        result := value
        mode := .showingResult
        history := session.history.push ⟨session.expression, value, now⟩ }
    | .error _ =>
      { session with
        preview := ""
        result := session.language.labels.error
        mode := .showingError }

def loadEntry (session : Session) (entry : Entry) : Session :=
  refreshPreview
    { session with expression := entry.result, result := "", preview := "", mode := .idle }

/-- Puts a recorded result into the buffer, the newest having index zero. -/
def loadIndex? (session : Session) (index : Nat) : Option Session :=
  (session.history.get? index).map session.loadEntry

def clearHistory (session : Session) : Session :=
  { session with history := session.history.clear }

inductive Action where
  | input (text : String)
  | clear
  | deleteLast
  | calculate (now : Nat)
  | loadIndex (index : Nat)
  | loadEntry (entry : Entry)
  | clearHistory
  | setLanguage (language : Locale.Language)
deriving DecidableEq, Repr

/-- The session after an action. Loading an entry that is not there changes nothing. -/
def perform (session : Session) : Action → Session
  | .input text => session.input text
  | .clear => session.clear
  | .deleteLast => session.deleteLast
  | .calculate now => session.calculate now
  | .loadIndex index => (session.loadIndex? index).getD session
  | .loadEntry entry => session.loadEntry entry
  | .clearHistory => session.clearHistory
  | .setLanguage language => session.setLanguage language

def run (session : Session) (actions : List Action) : Session := actions.foldl perform session

end Session

end PocketCalculator.Calculator

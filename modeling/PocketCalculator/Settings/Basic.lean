import PocketCalculator.Calculation.Engine
import PocketCalculator.History
import PocketCalculator.Locale.Labels
import PocketCalculator.Measure.Unit

namespace PocketCalculator.Settings

inductive LogFormat where
  | json
  | pretty
  | compact
deriving DecidableEq, Repr

namespace LogFormat

def all : List LogFormat := [json, pretty, compact]

def name : LogFormat → String
  | json => "json"
  | pretty => "pretty"
  | compact => "compact"

end LogFormat

structure LogSettings where
  level : String := "warn"
  console : Bool := true
  file : Option String := none
  format : LogFormat := .compact
  ansi : Bool := true
deriving DecidableEq, Repr, Inhabited

end Settings

structure Settings where
  historyCapacity : Nat := History.defaultCapacity
  scientific : Bool := true
  angleUnit : Calculation.AngleUnit := .radians
  language : Locale.Language := .english
  defaultCategory : Measure.Category := .length
  log : Settings.LogSettings := {}
deriving DecidableEq, Repr, Inhabited

namespace Settings

inductive Fault where
  | capacityTooSmall
  | capacityTooLarge
  | fileNotFound (path : String)
  | noExtension
  | unsupportedFormat (extension : String)
  | unreadable
  | unwritable
  | fileSystem
deriving DecidableEq, Repr

namespace Fault

def message : Fault → String
  | capacityTooSmall => "Configuration error: history_capacity must be at least 1"
  | capacityTooLarge =>
    "Configuration error: history_capacity must be at most " ++ History.maxCapacity.repr
  | fileNotFound path => "Configuration error: Config file not found: " ++ path
  | noExtension => "Configuration error: Config file must have an extension"
  | unsupportedFormat extension =>
    "Configuration error: Unsupported config file format: " ++ extension
  | unreadable => "Configuration error: Failed to load configuration"
  | unwritable => "Serialization error"
  | fileSystem => "IO error"

end Fault

/-- The settings themselves, if a history of their capacity may be kept. -/
def validate (settings : Settings) : Except Fault Settings :=
  if settings.historyCapacity = 0 then .error .capacityTooSmall
  else if History.maxCapacity < settings.historyCapacity then .error .capacityTooLarge
  else .ok settings

def engine (settings : Settings) : Calculation.Engine :=
  ⟨settings.scientific, settings.angleUnit⟩

end Settings

end PocketCalculator

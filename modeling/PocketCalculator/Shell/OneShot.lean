import PocketCalculator.Decimal.Leading
import PocketCalculator.Locale.Digits
import PocketCalculator.Locale.Labels
import PocketCalculator.Measure.Conversion
import PocketCalculator.Settings.Basic
import PocketCalculator.Shell.Report

namespace PocketCalculator.Shell

open PocketCalculator.Locale PocketCalculator.Measure

/-- Evaluates an expression, whose digits may be of any script. -/
def evalReport (settings : Settings) (paint : Paint) (expression : String) (degrees : Bool) :
    Report :=
  let engine := settings.engine
  let engine := if degrees then { engine with angleUnit := .degrees } else engine
  match engine.evaluate (delocalize expression) with
  | .ok value => .success (.line (paint.apply Style.green (localize settings.language value)))
  | .error fault =>
    let kind := if fault.isSyntax then "syntax error" else "math error"
    let label := paint.apply Style.red.strong settings.language.labels.error
    ⟨.errorLine (label ++ " " ++ kind ++ " (" ++ fault.message ++ ")"), 1⟩

/-- Converts a number. The units are looked at before the number. -/
def convertReport (settings : Settings) (paint : Paint) (value source target : String) : Report :=
  match resolvePair source target with
  | .error fault => .failure fault.message
  | .ok (source, target, category) =>
    match Decimal.leadingNumber? (delocalize value) with
    | none => .failure ("Not a number: " ++ value)
    | some number =>
      let result := formatConversion (convert number source target category)
      .success (.line
        (localize settings.language (formatConversion number) ++ " " ++
          paint.apply Style.cyan source.symbol ++ " = " ++
          paint.apply Style.green (localize settings.language result) ++ " " ++
          paint.apply Style.cyan target.symbol))

def padRight (width : Nat) (text : String) : String :=
  text ++ String.ofList (List.replicate (width - text.length) ' ')

/-- The units of a category with their rates. Temperatures have none. -/
def categoryLines (settings : Settings) (paint : Paint) (category : Category) : List String :=
  let (source, target) := category.defaultPair
  let label := paint.apply Style.yellow (settings.language.labels.category category)
  ["", "  " ++ label ++ " (" ++ category.name ++ ")",
      "    Units:    " ++ String.intercalate " " (category.units.map (·.symbol)),
      "    Default:  " ++ source.symbol ++ " → " ++ target.symbol] ++
    category.units.filterMap fun unit =>
      unit.rate?.map fun rate => "    " ++ padRight 9 unit.symbol ++ " " ++ formatConversion rate

/-- The table of units, of one category or of all. -/
def unitsReport (settings : Settings) (paint : Paint) (category : Option String) : Report :=
  let categories : Except UnitFault (List Category) :=
    match category with
    | some name => (Category.ofName name).map fun category => [category]
    | none => .ok Category.all
  match categories with
  | .error fault => .failure fault.message
  | .ok categories =>
    let title := paint.apply Style.cyan ("=== " ++ settings.language.labels.converter ++ " ===")
    .success (.lines (title :: categories.flatMap (categoryLines settings paint) ++ [""]))

end PocketCalculator.Shell

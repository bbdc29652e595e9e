import PocketCalculator.Binary64.Integral
import PocketCalculator.Calculation.Result
import PocketCalculator.Measure.Unit

namespace PocketCalculator.Measure

def toCelsius (value : Float) : MeasureUnit → Float
  | .fahrenheit => (value - 32) * 5 / 9
  | .kelvin => value - 273.15
  | _ => value

def ofCelsius (celsius : Float) : MeasureUnit → Float
  | .fahrenheit => celsius * 9 / 5 + 32
  | .kelvin => celsius + 273.15
  | _ => celsius

/-- The value in another unit of the category. Rates scale; a temperature goes through Celsius. A
unit of another category gives no number. -/
def convert (value : Float) (source target : MeasureUnit) (category : Category) : Float :=
  if category.contains source && category.contains target then
    match category with
    | .temperature => ofCelsius (toCelsius value source) target
    | _ =>
      match source.rate?, target.rate? with
      | some sourceRate, some targetRate => value * sourceRate / targetRate
      | _, _ => Binary64.nan
  else Binary64.nan

def conversionDecimals : UInt32 := 4

/-- The text of a finite value that is not whole: at most four decimals, none of them a zero at
the end. -/
def formatFraction (value : Float) : List Char :=
  Decimal.trimZeros
    (Decimal.fixed conversionDecimals.toNat (Calculation.roundDecimals value conversionDecimals))

/-- The text of a conversion. A whole number has no decimals, and zero has no sign. -/
def formatConversion (value : Float) : String :=
  if value.isNaN then "NaN"
  else if value.isInf then (if Binary64.isNegative value then "-Infinity" else "Infinity")
  else
    let text := if Binary64.isIntegral value then Decimal.plain value else formatFraction value
    if text = ['-', '0'] then "0" else String.ofList text

/-- Why two units cannot be converted into each other outside of a session. -/
inductive PairFault where
  | unit (fault : UnitFault)
  | differentCategories (source target : MeasureUnit)
deriving DecidableEq, Repr

namespace PairFault

def message : PairFault → String
  | unit fault => fault.message
  | differentCategories source target =>
    "Cannot convert " ++ source.symbol ++ " (" ++ source.category.name ++ ") to " ++
      target.symbol ++ " (" ++ target.category.name ++ ")"

end PairFault

/-- Two units given by their symbols, and the category they share. -/
def resolvePair (source target : String) :
    Except PairFault (MeasureUnit × MeasureUnit × Category) :=
  match MeasureUnit.ofSymbol source with
  | .error fault => .error (.unit fault)
  | .ok source =>
    match MeasureUnit.ofSymbol target with
    | .error fault => .error (.unit fault)
    | .ok target =>
      if target.category = source.category then .ok (source, target, source.category)
      else .error (.differentCategories source target)

end PocketCalculator.Measure

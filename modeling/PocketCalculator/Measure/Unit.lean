import PocketCalculator.Text.Blank

namespace PocketCalculator.Measure

inductive Category where
  | length
  | weight
  | temperature
  | data
deriving DecidableEq, Repr, Inhabited

inductive MeasureUnit where
  | meter
  | kilometer
  | centimeter
  | millimeter
  | foot
  | inch
  | kilogram
  | gram
  | milligram
  | pound
  | ounce
  | celsius
  | fahrenheit
  | kelvin
  | byte
  | kilobyte
  | megabyte
  | gigabyte
deriving DecidableEq, Repr

inductive UnitFault where
  | unknownUnit (symbol : String)
  | unknownCategory (name : String)
  | wrongCategory (unit : MeasureUnit) (category : Category)
deriving DecidableEq, Repr

namespace MeasureUnit

def all : List MeasureUnit :=
  [meter, kilometer, centimeter, millimeter, foot, inch, kilogram, gram, milligram, pound, ounce,
    celsius, fahrenheit, kelvin, byte, kilobyte, megabyte, gigabyte]

def symbol : MeasureUnit → String
  | meter => "m"
  | kilometer => "km"
  | centimeter => "cm"
  | millimeter => "mm"
  | foot => "ft"
  | inch => "in"
  | kilogram => "kg"
  | gram => "g"
  | milligram => "mg"
  | pound => "lb"
  | ounce => "oz"
  | celsius => "C"
  | fahrenheit => "F"
  | kelvin => "K"
  | byte => "B"
  | kilobyte => "KB"
  | megabyte => "MB"
  | gigabyte => "GB"

def category : MeasureUnit → Category
  | meter | kilometer | centimeter | millimeter | foot | inch => .length
  | kilogram | gram | milligram | pound | ounce => .weight
  | celsius | fahrenheit | kelvin => .temperature
  | byte | kilobyte | megabyte | gigabyte => .data

/-- How many base units of the category the unit has. The base units are meter, gram and byte;
temperatures have no rate. -/
def rate? : MeasureUnit → Option Float
  | meter => some 1
  | kilometer => some 1000
  | centimeter => some 0.01
  | millimeter => some 0.001
  | foot => some 0.3048
  | inch => some 0.0254
  | kilogram => some 1000
  | gram => some 1
  | milligram => some 0.001
  | pound => some 453.592
  | ounce => some 28.3495
  | byte => some 1
  | kilobyte => some 1024
  | megabyte => some 1048576
  | gigabyte => some 1073741824
  | celsius | fahrenheit | kelvin => none

/-- The unit with a symbol. Symbols are case-sensitive: `m` is a meter, `MB` a megabyte. -/
def ofSymbol (symbol : String) : Except UnitFault MeasureUnit :=
  match all.find? (·.symbol == symbol) with
  | some unit => .ok unit
  | none => .error (.unknownUnit symbol)

end MeasureUnit

namespace Category

def all : List Category := [length, weight, temperature, data]

def name : Category → String
  | length => "length"
  | weight => "weight"
  | temperature => "temperature"
  | data => "data"

def units : Category → List MeasureUnit
  | length => [.meter, .kilometer, .centimeter, .millimeter, .foot, .inch]
  | weight => [.kilogram, .gram, .milligram, .pound, .ounce]
  | temperature => [.celsius, .fahrenheit, .kelvin]
  | data => [.byte, .kilobyte, .megabyte, .gigabyte]

/-- The pair selected when a category is opened. -/
def defaultPair : Category → MeasureUnit × MeasureUnit
  | length => (.meter, .kilometer)
  | weight => (.kilogram, .gram)
  | temperature => (.celsius, .fahrenheit)
  | data => (.megabyte, .gigabyte)

def contains (category : Category) (unit : MeasureUnit) : Bool := unit.category == category

/-- The category with a name, in any case; `temp` is short for temperature. -/
def ofName (name : String) : Except UnitFault Category :=
  match Text.lower name with
  | "length" => .ok length
  | "weight" => .ok weight
  | "temperature" | "temp" => .ok temperature
  | "data" => .ok data
  | _ => .error (.unknownCategory name)

end Category

namespace UnitFault

def message : UnitFault → String
  | unknownUnit symbol => "Unknown unit: " ++ symbol
  | unknownCategory name => "Unknown category: " ++ name
  | wrongCategory unit category =>
    "Unit " ++ unit.symbol ++ " does not belong to category " ++ category.name

end UnitFault

end PocketCalculator.Measure

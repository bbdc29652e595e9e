namespace PocketCalculator.Calculation

/-- The float nearest to half a turn. -/
def pi : Float := Float.ofBits 0x400921FB54442D18

/-- The float nearest to Euler's number. -/
def euler : Float := Float.ofBits 0x4005BF0A8B145769

/-- The unit in which `sin`, `cos` and `tan` take their argument. -/
inductive AngleUnit where
  | radians
  | degrees
deriving DecidableEq, Repr, Inhabited

namespace AngleUnit

def name : AngleUnit → String
  | radians => "radians"
  | degrees => "degrees"

def toRadians : AngleUnit → Float → Float
  | radians, x => x
  | degrees, x => x * (pi / 180)

end AngleUnit

inductive MathFunction where
  | sqrt
  | sin
  | cos
  | tan
  | log
deriving DecidableEq, Repr

namespace MathFunction

def all : List MathFunction := [sqrt, sin, cos, tan, log]

def name : MathFunction → String
  | sqrt => "sqrt"
  | sin => "sin"
  | cos => "cos"
  | tan => "tan"
  | log => "log"

def ofName? (name : String) : Option MathFunction := all.find? (·.name == name)

/-- Whether the function is offered on the scientific keypad only. -/
def isScientific : MathFunction → Bool
  | sqrt => false
  | _ => true

/-- `log` has base ten. -/
def apply (angle : AngleUnit) : MathFunction → Float → Float
  | sqrt, x => x.sqrt
  | sin, x => (angle.toRadians x).sin
  | cos, x => (angle.toRadians x).cos
  | tan, x => (angle.toRadians x).tan
  | log, x => x.log10

end MathFunction

end PocketCalculator.Calculation

import PocketCalculator.Binary64.Units

namespace PocketCalculator.Binary64

def nan : Float := Float.ofBits 0x7FF8000000000000

def isIntegral (x : Float) : Bool := x.isFinite && units x % one == 0

/-- The nearest whole number; a half goes away from zero. The sign is kept, also of a zero. -/
def roundHalfAway (x : Float) : Float :=
  if x.isFinite then ofUnits (isNegative x) ((2 * units x + one) / (2 * one) * one) else x

/-- The exact remainder of a division that is cut off toward zero, with the dividend's sign. -/
def remainder (x y : Float) : Float :=
  if x.isNaN || y.isNaN || x.isInf || y == 0 then nan
  else if y.isInf then x
  else ofUnits (isNegative x) (units x % units y)

/-- A power with a natural exponent, by repeated squaring from the exponent's lowest bit. -/
def powerBySquaring (base product : Float) (exponent : Nat) : Float :=
  let product := if exponent % 2 = 1 then product * base else product
  if exponent < 2 then product else powerBySquaring (base * base) product (exponent / 2)
termination_by exponent

/-- Ten to a whole exponent; a negative one divides one by the opposite power. -/
def powerOfTen (exponent : Int) : Float :=
  let power := powerBySquaring 10 1 exponent.natAbs
  if exponent < 0 then 1 / power else power

end PocketCalculator.Binary64

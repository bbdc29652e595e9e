import PocketCalculator.Binary64.Integral
import PocketCalculator.Decimal.Shortest

namespace PocketCalculator.Calculation

/-- The magnitude from which on every float is whole. -/
def wholeFrom : Float := 9007199254740992

/-- The power of ten that scales to a number of decimals. The number is taken as a signed word of
32 bits, so from 2³¹ on it counts down from zero. -/
def decimalFactor (decimals : UInt32) : Float := Binary64.powerOfTen decimals.toInt32.toInt

/-- Rounds to a number of decimals, a half away from zero. A value that is too large to carry that
many decimals is kept. -/
def roundDecimals (value : Float) (decimals : UInt32) : Float :=
  let factor := decimalFactor decimals
  let scaled := value * factor
  if !scaled.isFinite || scaled.abs ≥ wholeFrom then value
  else Binary64.roundHalfAway scaled / factor

def resultDecimals : UInt32 := 10

/-- The text of a result: rounded, in shortest form, and without a sign on zero. -/
def formatResult (value : Float) : String :=
  let rounded := roundDecimals value resultDecimals
  if rounded == 0 then "0" else String.ofList (Decimal.plain rounded)

end PocketCalculator.Calculation

import PocketCalculator.Decimal.Numeral
import PocketCalculator.Text.Blank

namespace PocketCalculator.Decimal

/-- Whether a text starts with a minus sign, and the text after a sign. -/
def splitSign : List Char → Bool × List Char
  | '-' :: rest => (true, rest)
  | '+' :: rest => (false, rest)
  | cs => (false, cs)

/-- The number at the start of a text, after blanks: perhaps a sign, then a numeral with at least
one digit. What follows it does not matter. -/
def leadingNumber? (text : String) : Option Float :=
  let (negative, rest) := splitSign (Text.trimStart text.toList)
  let numeral := (Numeral.scan rest).1
  if numeral.isEmpty then none else some (numeral.toFloat negative)

end PocketCalculator.Decimal

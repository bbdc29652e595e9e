import PocketCalculator.Calculation.MathFunction
import PocketCalculator.Decimal.Shortest

namespace PocketCalculator.Calculation

/-- An operator is typed in ASCII or as the sign on its key. -/
inductive Spelling where
  | ascii
  | sign
deriving DecidableEq, Repr

inductive PowerSpelling where
  | caret
  | stars
deriving DecidableEq, Repr

/-- The smallest parts of an expression. An operator remembers how it was typed. -/
inductive Token where
  | number (value : Float)
  | plus
  | minus (spelling : Spelling)
  | times (spelling : Spelling)
  | divide (spelling : Spelling)
  | percent
  | modulo
  | power (spelling : PowerSpelling)
  | openParen
  | closeParen
  | pi
  | euler
  | function (f : MathFunction)
deriving DecidableEq

namespace Token

/-- The token as messages show it: a number by its value, an operator as typed. -/
def describe : Token → String
  | number value => String.ofList (Decimal.plain value)
  | plus => "+"
  | minus .ascii => "-"
  | minus .sign => "−"
  | times .ascii => "*"
  | times .sign => "×"
  | divide .ascii => "/"
  | divide .sign => "÷"
  | percent => "%"
  | modulo => "Mod"
  | power .caret => "^"
  | power .stars => "**"
  | openParen => "("
  | closeParen => ")"
  | pi => "π"
  | euler => "e"
  | function f => f.name

end Token

end PocketCalculator.Calculation

import PocketCalculator.Calculation.Token
import PocketCalculator.Binary64.Integral

namespace PocketCalculator.Calculation

inductive SignOperator where
  | plus
  | negate
deriving DecidableEq, Repr

inductive BinaryOperator where
  | add
  | subtract
  | multiply
  | divide
  | modulo
  | power
deriving DecidableEq, Repr

inductive Tree where
  | number (value : Float)
  | sign (op : SignOperator) (operand : Tree)
  | binary (op : BinaryOperator) (left right : Tree)
  | percent (operand : Tree)
  | call (f : MathFunction) (argument : Tree)
deriving DecidableEq

namespace SignOperator

def apply : SignOperator → Float → Float
  | plus, x => x
  | negate, x => -x

end SignOperator

namespace BinaryOperator

def apply : BinaryOperator → Float → Float → Float
  | add, x, y => x + y
  | subtract, x, y => x - y
  | multiply, x, y => x * y
  | divide, x, y => x / y
  | modulo, x, y => Binary64.remainder x y
  | power, x, y => x.pow y

end BinaryOperator

namespace Tree

/-- The value of a tree. A percent sign divides by a hundred. -/
def eval (angle : AngleUnit) : Tree → Float
  | number value => value
  | sign op operand => op.apply (operand.eval angle)
  | binary op left right => op.apply (left.eval angle) (right.eval angle)
  | percent operand => operand.eval angle / 100
  | call f argument => f.apply angle (argument.eval angle)

end Tree

end PocketCalculator.Calculation

import PocketCalculator.Calculation.Lexeme
import PocketCalculator.Calculation.Phrase
import PocketCalculator.Calculation.Result

namespace PocketCalculator.Calculation

inductive Fault where
  | lexical (fault : LexicalFault)
  | syntactic (fault : SyntaxFault)
  | notANumber
  | notFinite
deriving DecidableEq

namespace Fault

/-- Whether the expression could not be read, as opposed to having no finite value. -/
def isSyntax : Fault → Bool
  | lexical _ | syntactic _ => true
  | notANumber | notFinite => false

def message : Fault → String
  | lexical fault => "Syntax error: " ++ fault.message
  | syntactic fault => "Syntax error: " ++ fault.message
  | notANumber => "Math error: result is not a number"
  | notFinite => "Math error: result is not finite"

end Fault

structure Engine where
  scientific : Bool := true
  angleUnit : AngleUnit := .radians
deriving DecidableEq, Repr, Inhabited

namespace Engine

def compile (engine : Engine) (text : String) : Except Fault Tree :=
  match tokenize engine.scientific text with
  | .error fault => .error (.lexical fault)
  | .ok tokens => (parse tokens).mapError .syntactic

def finite (value : Float) : Except Fault Float :=
  if value.isNaN then .error .notANumber
  else if value.isInf then .error .notFinite
  else .ok value

/-- The value of an expression, not rounded. -/
def evaluateRaw (engine : Engine) (text : String) : Except Fault Float :=
  match engine.compile text with
  | .error fault => .error fault
  | .ok tree => finite (tree.eval engine.angleUnit)

/-- The result of an expression as it is displayed. -/
def evaluate (engine : Engine) (text : String) : Except Fault String :=
  (engine.evaluateRaw text).map formatResult

end Engine

end PocketCalculator.Calculation

import PocketCalculator.Locale.Digits

namespace PocketCalculator.Calculator

/-- What a key of the calculator does to the buffer. -/
inductive Key where
  | square
  | power
  | reciprocal
  | toggleSign
  | root
  | modulo
  | literal (text : String)
deriving DecidableEq, Repr

namespace Key

/-- The key with a text on it. Texts that are no key of their own are typed as they are, with
ASCII digits. -/
def ofText : String → Key
  | "x²" => square
  | "xʸ" => power
  | "1/x" => reciprocal
  | "+/-" => toggleSign
  | "√" => root
  | "Mod" => modulo
  | text => literal (Locale.delocalize text)

/-- The literal keys that take a displayed result as their left operand. -/
def operatorTexts : List String := ["+", "-", "×", "÷", "%", "^", "*", "/"]

/-- Whether the key takes a displayed result as its left operand. -/
def isBinaryOperator : Key → Bool
  | power | modulo => true
  | literal text => operatorTexts.contains text
  | _ => false

/-- Whether the key takes the whole buffer as its operand. -/
def isWrapper : Key → Bool
  | square | reciprocal | toggleSign => true
  | _ => false

def apply (buffer : String) : Key → String
  | square => if buffer = "" then "" else "(" ++ buffer ++ ")^2"
  | power => buffer ++ "^"
  | reciprocal => if buffer = "" then "1/(" else "1/(" ++ buffer ++ ")"
  | toggleSign => if buffer = "" then "-" else "-(" ++ buffer ++ ")"
  | root => buffer ++ "√("
  | modulo => buffer ++ "Mod"
  | literal text => buffer ++ text

end Key

end PocketCalculator.Calculator

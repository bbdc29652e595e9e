import PocketCalculator.Decimal.Scientific
import PocketCalculator.Settings.Value
import PocketCalculator.Text.Hexadecimal

namespace PocketCalculator.Settings.Yaml

open PocketCalculator.Decimal

def isNull (s : String) : Bool := ["", "~", "null", "Null", "NULL"].contains s

def truth? (s : String) : Option Bool :=
  if ["true", "True", "TRUE"].contains s then some true
  else if ["false", "False", "FALSE"].contains s then some false
  else none

/-- Whether a text is digits with a needless zero in front, which is no number. -/
def isPadded (cs : List Char) : Bool :=
  match (splitSign cs).2 with
  | '0' :: rest => !rest.isEmpty && rest.all Char.isDigit
  | _ => false

def natural? (base : Nat) (digits : List Char) : Option Nat :=
  if digits.isEmpty then none else Text.baseValue? base digits

/-- A whole number, in base ten or with a base before its digits. -/
def integer? (cs : List Char) : Option Int :=
  if isPadded cs then none
  else
    let (negative, rest) := splitSign cs
    let n :=
      match rest with
      | '0' :: 'x' :: digits => natural? 16 digits
      | '0' :: 'o' :: digits => natural? 8 digits
      | '0' :: 'b' :: digits => natural? 2 digits
      | digits => natural? 10 digits
    n.map fun (n : Nat) => if negative then -(n : Int) else n

/-- Whether a text is a number that need not be whole. A finite one is written in decimal. -/
def isFraction (cs : List Char) : Bool :=
  let s := String.ofList (splitSign cs).2
  let word := String.ofList cs
  [".inf", ".Inf", ".INF"].contains s || [".nan", ".NaN", ".NAN"].contains word ||
    (!isPadded cs && ((Scientific.ofText? cs).map Scientific.isFinite).getD false)

def resolve (cs : List Char) : Value :=
  let s := String.ofList cs
  if isNull s then .scalar .empty
  else
    match truth? s with
    | some b => .scalar (.truth b)
    | none =>
      match integer? cs with
      | some n => .scalar (.integer n)
      | none => if isFraction cs then .fraction s else .scalar (.text s)

end PocketCalculator.Settings.Yaml

import PocketCalculator.Locale.Language

namespace PocketCalculator.Locale

/-- The value of a digit of any supported script. -/
def digitValue? (c : Char) : Option Nat :=
  Language.all.findSome? fun language =>
    let first := language.zero.toNat
    if first ≤ c.toNat && c.toNat ≤ first + 9 then some (c.toNat - first) else none

/-- The character with an ASCII digit shown in the language's script. -/
def localizeChar (language : Language) (c : Char) : Char :=
  if c.isDigit then (language.digit? (c.toNat - '0'.toNat)).getD c else c

/-- The character with a digit of any script written in ASCII. -/
def delocalizeChar (c : Char) : Char :=
  match digitValue? c with
  | some value => Nat.digitChar value
  | none => c

def localize (language : Language) (text : String) : String :=
  String.ofList (text.toList.map (localizeChar language))

def delocalize (text : String) : String :=
  String.ofList (text.toList.map delocalizeChar)

end PocketCalculator.Locale

import PocketCalculator.Decimal.Scientific
import PocketCalculator.Settings.Value
import PocketCalculator.Text.Hexadecimal

namespace PocketCalculator.Settings.Toml

open PocketCalculator.Decimal

def isBare (c : Char) : Bool :=
  c.isAlphanum || c == '+' || c == '-' || c == '_' || c == '.' || c == ':'

/-- The text without the underscores between digits. Anywhere else an underscore is a fault. -/
def ungroup (isDigit : Char → Bool) : Bool → List Char → Option (List Char)
  | _, [] => some []
  | afterDigit, c :: rest =>
    if c = '_' then
      if afterDigit && (rest.head?.map isDigit).getD false then ungroup isDigit false rest else none
    else (ungroup isDigit (isDigit c) rest).map (c :: ·)

/-- The digits of a number in a base of its own. -/
def basedInteger? (base : Nat) (digits : List Char) : Option Nat :=
  if digits.isEmpty then none
  else
    (ungroup (fun c => (Text.digitValue? base c).isSome) false digits).bind (Text.baseValue? base)

def integerOf? (n : Int) : Option Value :=
  if -Int.pow 2 63 ≤ n ∧ n < Int.pow 2 63 then some (.scalar (.integer n)) else none

/-- A decimal number, with a point or a power of ten or with neither. There is no zero before other
digits, and a point stands between digits. -/
def decimal? (cs : List Char) : Option Value :=
  match (ungroup Char.isDigit false cs).bind Scientific.ofText? with
  | none => none
  | some x =>
    let whole := x.numeral.whole
    if whole.isEmpty || (whole.head? = some '0' && whole ≠ ['0']) ||
        (x.numeral.point && x.numeral.fraction.isEmpty) then none
    else if x.numeral.point || x.power.isSome then
      if x.isFinite || x.negative then some (.fraction (String.ofList cs)) else none
    else
      let n : Int := Nat.ofDigitChars 10 whole 0
      integerOf? (if x.negative then -n else n)

/-- Two digits that name a number in a range. -/
def twoDigits? (low high : Nat) (a b : Char) : Option Nat :=
  if a.isDigit ∧ b.isDigit then
    let n := Nat.ofDigitChars 10 [a, b] 0
    if low ≤ n ∧ n ≤ high then some n else none
  else none

def isLeapYear (year : Nat) : Bool := year % 4 = 0 && (year % 100 ≠ 0 || year % 400 = 0)

def daysInMonth (year month : Nat) : Nat :=
  if month = 2 then (if isLeapYear year then 29 else 28)
  else if month = 4 ∨ month = 6 ∨ month = 9 ∨ month = 11 then 30
  else 31

def afterDate? : List Char → Option (List Char)
  | y :: y' :: y'' :: y''' :: '-' :: m :: m' :: '-' :: d :: d' :: rest =>
    let year := [y, y', y'', y''']
    if year.all Char.isDigit then
      match twoDigits? 1 12 m m' with
      | none => none
      | some month =>
        (twoDigits? 1 (daysInMonth (Nat.ofDigitChars 10 year 0) month) d d').map fun _ => rest
    else none
  | _ => none

/-- What follows a time of day, which may have a fraction of a second. -/
def afterTime? : List Char → Option (List Char)
  | h :: h' :: ':' :: m :: m' :: ':' :: s :: s' :: rest =>
    match twoDigits? 0 23 h h', twoDigits? 0 59 m m', twoDigits? 0 60 s s' with
    | some _, some _, some _ =>
      match rest with
      | '.' :: rest =>
        if (rest.takeWhile Char.isDigit).isEmpty then none else some (rest.dropWhile Char.isDigit)
      | rest => some rest
    | _, _, _ => none
  | _ => none

/-- Whether a text is a distance from universal time. -/
def isOffset : List Char → Bool
  | ['Z'] => true
  | ['z'] => true
  | [sign, h, h', ':', m, m'] =>
    (sign == '+' || sign == '-') && (twoDigits? 0 23 h h').isSome && (twoDigits? 0 59 m m').isSome
  | _ => false

def isDateTime (cs : List Char) : Bool :=
  match afterDate? cs with
  | some [] => true
  | some (c :: rest) =>
    (c == 'T' || c == 't' || c == ' ') &&
      match afterTime? rest with
      | some offset => offset.isEmpty || isOffset offset
      | none => false
  | none => afterTime? cs == some []

/-- The value that a text without quotes is. No setting is a date, and a date is kept as a table
with an entry of its own. -/
def bareValue? (cs : List Char) : Option Value :=
  if cs = "true".toList then some (.scalar (.truth true))
  else if cs = "false".toList then some (.scalar (.truth false))
  else if isDateTime cs then some (.table [("date", .scalar (.text (String.ofList cs)))])
  else if (splitSign cs).2 = "inf".toList ∨ (splitSign cs).2 = "nan".toList then
    some (.fraction (String.ofList cs))
  else
    match cs with
    | '0' :: 'x' :: digits => (basedInteger? 16 digits).bind fun n => integerOf? n
    | '0' :: 'o' :: digits => (basedInteger? 8 digits).bind fun n => integerOf? n
    | '0' :: 'b' :: digits => (basedInteger? 2 digits).bind fun n => integerOf? n
    | cs => decimal? cs

end PocketCalculator.Settings.Toml

import PocketCalculator.Decimal.Leading

namespace PocketCalculator.Decimal

structure Scientific where
  negative : Bool
  numeral : Numeral
  power : Option Int
deriving DecidableEq, Repr

namespace Scientific

/-- The power of ten after the letter `e`: perhaps a sign, then digits only. -/
def power? (cs : List Char) : Option Int :=
  let (negative, digits) := splitSign cs
  if digits.isEmpty || !digits.all Char.isDigit then none
  else
    let n : Int := Nat.ofDigitChars 10 digits 0
    some (if negative then -n else n)

/-- A whole text read as a number: perhaps a sign, a numeral with at least one digit, perhaps a
power of ten. -/
def ofText? (cs : List Char) : Option Scientific :=
  let (negative, rest) := splitSign cs
  let (numeral, rest) := Numeral.scan rest
  if numeral.isEmpty then none
  else
    match rest with
    | [] => some ⟨negative, numeral, none⟩
    | c :: rest =>
      if c = 'e' ∨ c = 'E' then (power? rest).map fun n => ⟨negative, numeral, some n⟩ else none

/-- Whether the number lies below the first power of two that no float reaches. Long before the
power of ten is computed, the place of the leading digit decides. -/
def isFinite (x : Scientific) : Bool :=
  let digits := (x.numeral.whole ++ x.numeral.fraction).dropWhile (· == '0')
  let power := x.power.getD 0 - x.numeral.fraction.length
  let place := digits.length + power
  place < 309 || digits.isEmpty ||
    (place = 309 &&
      Nat.ofDigitChars 10 digits 0 * Nat.pow 10 power.toNat <
        Nat.pow 2 1024 * Nat.pow 10 (-power).toNat)

end Scientific

end PocketCalculator.Decimal

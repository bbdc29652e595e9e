import PocketCalculator.Binary64.Units

namespace PocketCalculator.Decimal

/-- `n` divided by ten to the `places`, with exactly that many digits after the point. -/
def pointed (n places : Nat) : List Char :=
  if places = 0 then Nat.toDigits 10 n
  else
    let fraction := Nat.toDigits 10 (n % Nat.pow 10 places)
    Nat.toDigits 10 (n / Nat.pow 10 places) ++
      '.' :: (List.replicate (places - fraction.length) '0' ++ fraction)

def signed (negative : Bool) (text : List Char) : List Char :=
  if negative then '-' :: text else text

/-- A finite float with a fixed number of places. The exact value is rounded, a tie to even. -/
def fixed (places : Nat) (x : Float) : List Char :=
  signed (Binary64.isNegative x)
    (pointed (Binary64.quotientHalfEven (Binary64.units x * Nat.pow 10 places) Binary64.one) places)

/-- The text without the zeros at its end, and then without a point left at its end. -/
def trimZeros (text : List Char) : List Char :=
  ((text.reverse.dropWhile (· == '0')).dropWhile (· == '.')).reverse

end PocketCalculator.Decimal

import PocketCalculator.Decimal.Plain

/-!
The shortest decimal of a float: of all decimals that read back to the float, those with the fewest
digits, of these the nearest, and of two equally near the larger.
-/

namespace PocketCalculator.Decimal

/-- The number `digits * 10 ^ exponent`. -/
structure Scaled where
  digits : Nat
  exponent : Int
deriving DecidableEq, Repr

namespace Scaled

/-- The digits of a finite magnitude in positional form. -/
def text (d : Scaled) : List Char :=
  if d.exponent < 0 then pointed d.digits d.exponent.natAbs
  else Nat.toDigits 10 (d.digits * Nat.pow 10 d.exponent.toNat)

end Scaled

/-- Whether `digits * 10 ^ exponent` lies between the midpoints from the magnitude `b` to its two
neighbours. The midpoints belong to an even magnitude. -/
def readsBack (b : Nat) (d : Scaled) : Bool :=
  let scale := Nat.pow 10 (-d.exponent).toNat
  let value := 2 * d.digits * Nat.pow 10 d.exponent.toNat * Binary64.one
  let low := (Binary64.unitsOf (b - 1) + Binary64.unitsOf b) * scale
  let high := (Binary64.unitsOf b + Binary64.unitsOf (b + 1)) * scale
  if b % 2 = 0 then low ≤ value && value ≤ high else low < value && value < high

/-- The decimal with the given exponent that reads back to the magnitude `b`, if there is one. The
two multiples around the exact value are tried, and of two hits the nearer is taken. -/
def onGrid? (b : Nat) (exponent : Int) : Option Scaled :=
  let num := Binary64.unitsOf b * Nat.pow 10 (-exponent).toNat
  let den := Nat.pow 10 exponent.toNat * Binary64.one
  let down : Scaled := ⟨num / den, exponent⟩
  let up : Scaled := ⟨num / den + 1, exponent⟩
  match readsBack b down, readsBack b up with
  | true, true => some (if 2 * (num % den) < den then down else up)
  | true, false => some down
  | false, true => some up
  | false, false => none

/-- An exponent of ten above the leading digit of a number of units. -/
def leadingExponent (units : Nat) : Int := ((units.log2 + 1) * 30103 / 100000 : Nat) - 322

/-- The shortest decimal of a positive finite magnitude, searched from the coarsest grid down. The
exact value closes the search. -/
def shortest (b : Nat) : Scaled :=
  let top := leadingExponent (Binary64.unitsOf b)
  let grids := (List.range 22).map fun (k : Nat) => top - (k : Int)
  (grids.findSome? (onGrid? b)).getD ⟨Binary64.unitsOf b * Nat.pow 5 1074, -1074⟩

/-- The text of a float: shortest digits, never an exponent. -/
def plain (x : Float) : List Char :=
  if x.isNaN then "NaN".toList
  else if x.isInf then signed (Binary64.isNegative x) "inf".toList
  else if Binary64.units x = 0 then signed (Binary64.isNegative x) ['0']
  else signed (Binary64.isNegative x) (shortest (Binary64.magnitude x)).text

end PocketCalculator.Decimal

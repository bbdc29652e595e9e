/-!
Floats as whole numbers of units. Every finite float is a multiple of 2⁻¹⁰⁷⁴, and the bit pattern
without its sign grows with that multiple, so decoding and rounding are arithmetic on naturals.
-/

namespace PocketCalculator.Binary64

/-- The units of the number one. Its power is not unfolded while something is proved about it. -/
@[irreducible] def one : Nat := Nat.pow 2 1074

/-- The bit pattern without the sign bit. -/
def magnitude (x : Float) : Nat := x.toBits.toNat % Nat.pow 2 63

def isNegative (x : Float) : Bool := Nat.pow 2 63 ≤ x.toBits.toNat

/-- The magnitude of infinity, the first above all finite ones. -/
def infinite : Nat := 0x7FF0000000000000

/-- The units of the number that a magnitude encodes. -/
def unitsOf (b : Nat) : Nat :=
  let binade := Nat.pow 2 52
  if b < binade then b else (binade + b % binade) * Nat.pow 2 (b / binade - 1)

/-- The absolute value of a finite float, in units. -/
def units (x : Float) : Nat := unitsOf (magnitude x)

/-- The natural number nearest to a quotient; a tie goes to the even one. -/
def quotientHalfEven (num den : Nat) : Nat :=
  let q := num / den
  let r := num % den
  if 2 * r < den then q else if den < 2 * r then q + 1 else q + q % 2

/-- The magnitude nearest to `num / den` units. Numbers with more than 53 bits drop the low ones;
a carry out of the fraction is a carry into the exponent, and past the largest finite magnitude
lies infinity. -/
def nearest (num den : Nat) : Nat :=
  let dropped := (num / den).log2 - 52
  min infinite (quotientHalfEven num (den * Nat.pow 2 dropped) + dropped * Nat.pow 2 52)

def ofMagnitude (negative : Bool) (b : Nat) : Float :=
  Float.ofBits (UInt64.ofNat (if negative then Nat.pow 2 63 + b else b))

def ofUnits (negative : Bool) (n : Nat) : Float := ofMagnitude negative (nearest n 1)

def ofRatio (negative : Bool) (num den : Nat) : Float :=
  ofMagnitude negative (nearest (num * one) den)

end PocketCalculator.Binary64

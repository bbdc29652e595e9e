namespace PocketCalculator.Text

/-- The value of a digit in a base up to sixteen. -/
def digitValue? (base : Nat) (c : Char) : Option Nat :=
  let n := c.toNat
  let value :=
    if 48 ≤ n ∧ n ≤ 57 then n - 48
    else if 97 ≤ n ∧ n ≤ 102 then n - 87
    else if 65 ≤ n ∧ n ≤ 70 then n - 55
    else 16
  if value < base then some value else none

/-- The value of some digits, the first of them the highest. -/
def baseValue? (base : Nat) (digits : List Char) : Option Nat :=
  digits.foldl
    (fun value c =>
      match value, digitValue? base c with
      | some value, some digit => some (value * base + digit)
      | _, _ => none)
    (some 0)

def hexValue? (digits : List Char) : Option Nat := baseValue? 16 digits

def charOfCode? (n : Nat) : Option Char :=
  if n.isValidChar then some (Char.ofNat n) else none

/-- The character whose code some hexadecimal digits are. -/
def codePoint? (digits : List Char) : Option Char := (hexValue? digits).bind charOfCode?

/-- A number in hexadecimal, with capital letters and at least `width` digits. -/
def hexDigits (width n : Nat) : List Char :=
  let digits := (Nat.toDigits 16 n).map Char.toUpper
  List.replicate (width - digits.length) '0' ++ digits

end PocketCalculator.Text

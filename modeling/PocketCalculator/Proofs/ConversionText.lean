import PocketCalculator.Measure.Conversion
import PocketCalculator.Proofs.ShortestDecimal

namespace PocketCalculator.Proofs.ConversionText

open PocketCalculator.Binary64
open PocketCalculator.Decimal
open PocketCalculator.Measure
open PocketCalculator.Proofs.Characters
open PocketCalculator.Proofs.ShortestDecimal

theorem pointed_of_ne {places : Nat} (h : places ≠ 0) (n : Nat) :
    pointed n places =
      Nat.toDigits 10 (n / 10 ^ places) ++ '.' :: padded (n % 10 ^ places) places :=
  if_neg h

theorem isDigit_of_mem_pointed {n places : Nat} {c : Char}
    (h : c ∈ Nat.toDigits 10 (n / 10 ^ places) ++ padded (n % 10 ^ places) places) :
    c.isDigit := by
  rcases List.mem_append.mp h with h | h
  · exact isDigit_toDigits _ c h
  · exact isDigit_of_mem_padded h

theorem trimZeros_append_zero (text : List Char) : trimZeros (text ++ ['0']) = trimZeros text := by
  simp [trimZeros]

theorem trimZeros_append_of_ne {c : Char} (hzero : c ≠ '0') (hpoint : c ≠ '.')
    (text : List Char) : trimZeros (text ++ [c]) = text ++ [c] := by
  simp [trimZeros, hzero, hpoint]

theorem trimZeros_append_point {c : Char} (hpoint : c ≠ '.') (text : List Char) :
    trimZeros (text ++ [c] ++ ['.']) = text ++ [c] := by
  simp [trimZeros, hpoint]

theorem signed_append (negative : Bool) (text more : List Char) :
    signed negative (text ++ more) = signed negative text ++ more := by
  cases negative <;> rfl

end PocketCalculator.Proofs.ConversionText

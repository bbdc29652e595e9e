import PocketCalculator.Binary64.Units

namespace PocketCalculator.Decimal

/-- An unsigned decimal numeral as it is written: digits, perhaps a point, more digits. -/
structure Numeral where
  whole : List Char
  point : Bool
  fraction : List Char
deriving DecidableEq, Repr

namespace Numeral

/-- The digits at the start of a text with an optional point among them, and the text after. -/
def scan (cs : List Char) : Numeral × List Char :=
  let whole := cs.takeWhile Char.isDigit
  match cs.dropWhile Char.isDigit with
  | '.' :: rest => (⟨whole, true, rest.takeWhile Char.isDigit⟩, rest.dropWhile Char.isDigit)
  | rest => (⟨whole, false, []⟩, rest)

def text (n : Numeral) : List Char :=
  n.whole ++ ((if n.point then ['.'] else []) ++ n.fraction)

def width (n : Numeral) : Nat :=
  n.whole.length + ((if n.point then 1 else 0) + n.fraction.length)

def isEmpty (n : Numeral) : Bool := n.whole.isEmpty && n.fraction.isEmpty

def toFloat (negative : Bool) (n : Numeral) : Float :=
  Binary64.ofRatio negative (Nat.ofDigitChars 10 (n.whole ++ n.fraction) 0)
    (Nat.pow 10 n.fraction.length)

theorem text_scan (cs : List Char) : (scan cs).1.text ++ (scan cs).2 = cs := by
  have h := List.takeWhile_append_dropWhile (p := Char.isDigit) (l := cs)
  simp only [scan]
  split
  · rename_i rest heq
    rw [heq] at h
    simp [text, h]
  · simp [text, h]

theorem length_text (n : Numeral) : n.text.length = n.width := by
  cases h : n.point <;> simp [text, width, h, Nat.add_comm]

end Numeral

end PocketCalculator.Decimal

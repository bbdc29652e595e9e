import PocketCalculator.Keypad.Basic
import PocketCalculator.Keypad.Keys

namespace PocketCalculator.Keypad

def metaCommands : List String :=
  [":history", ":load", ":clear-history", ":tab", ":category", ":units", ":swap", ":lang",
    ":save-config", ":help", ":quit"]

def argumentsOf (command : List Char) : List String :=
  if command = ":tab".toList then ["calc", "conv"]
  else if command = ":category".toList then Measure.Category.all.map (·.name)
  else if command = ":units".toList then Measure.MeasureUnit.all.map (·.symbol)
  else if command = ":lang".toList then Locale.Language.all.map (·.code)
  else []

/-- The characters that lie within the first `bytes` bytes. -/
def takeBytes : Nat → List Char → List Char
  | _, [] => []
  | bytes, c :: rest => if c.utf8Size ≤ bytes then c :: takeBytes (bytes - c.utf8Size) rest else []

/-- The completions of the last word before a byte position, and the byte where the word starts.
Only a space ends a word. -/
def complete (line : String) (position : Nat) : Nat × List String :=
  let typed := takeBytes position line.toList
  let word := (typed.reverse.takeWhile (· ≠ ' ')).reverse
  let before := typed.take (typed.length - word.length)
  let candidates :=
    if typed.head? = some ':' then
      if before.isEmpty then metaCommands else argumentsOf ((Text.words typed).headD [])
    else calculatorKeys
  (before.foldl (fun bytes c => bytes + c.utf8Size) 0, candidates.filter fun c => word.isPrefixOf c.toList)

end PocketCalculator.Keypad

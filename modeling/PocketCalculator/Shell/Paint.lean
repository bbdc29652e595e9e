namespace PocketCalculator.Shell

inductive Colour where
  | red
  | brightGreen
  | brightYellow
  | brightCyan
deriving DecidableEq, Repr

def Colour.code : Colour → String
  | red => "31"
  | brightGreen => "92"
  | brightYellow => "93"
  | brightCyan => "96"

/-- How a piece of text is shown on a terminal with colours. -/
structure Style where
  bold : Bool := false
  dimmed : Bool := false
  colour : Option Colour := none
deriving DecidableEq, Repr

namespace Style

def red : Style := { colour := some .red }
def green : Style := { colour := some .brightGreen }
def yellow : Style := { colour := some .brightYellow }
def cyan : Style := { colour := some .brightCyan }
def faint : Style := { dimmed := true }

def strong (style : Style) : Style := { style with bold := true }

def codes (style : Style) : List String :=
  (if style.bold then ["1"] else []) ++ (if style.dimmed then ["2"] else []) ++
    (style.colour.map Colour.code).toList

/-- The sequence that switches a terminal to the style. -/
def start (style : Style) : List Char :=
  ('\x1b' :: '[' :: (String.intercalate ";" style.codes).toList) ++ ['m']

end Style

/-- The sequence that switches a terminal back to plain text. -/
def reset : List Char := ['\x1b', '[', '0', 'm']

/-- The text with the style switched on again after every reset in it. -/
def restyle (style : List Char) : List Char → List Char
  | '\x1b' :: '[' :: '0' :: 'm' :: rest => reset ++ style ++ restyle style rest
  | c :: rest => c :: restyle style rest
  | [] => []

structure Paint where
  coloured : Bool
deriving DecidableEq, Repr

namespace Paint

def apply (paint : Paint) (style : Style) (text : String) : String :=
  if paint.coloured then
    String.ofList (style.start ++ restyle style.start text.toList ++ reset)
  else text

/-- Variables can force colours or forbid them. Otherwise they are shown on a terminal only. -/
def ofEnvironment (environment : List (String × String)) (terminal : Bool) : Paint :=
  let value? (name : String) : Option String := (environment.find? (·.1 == name)).map (·.2)
  let isOn (name : String) : Option Bool := (value? name).map (· ≠ "0")
  if isOn "CLICOLOR_FORCE" = some true then ⟨true⟩
  else if (value? "NO_COLOR").isSome then ⟨false⟩
  else ⟨(isOn "CLICOLOR").getD true && terminal⟩

end Paint

end PocketCalculator.Shell

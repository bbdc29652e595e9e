namespace PocketCalculator.Keypad

def calculatorKeys : List String :=
  ["AC", "DEL", "%", "÷", "7", "8", "9", "×", "4", "5", "6", "-", "1", "2", "3", "+", "0", ".",
    "=", "(", ")", "x²", "xʸ", "1/x", "+/-", "√", "π", "e", "Mod", "sin(", "cos(", "tan(", "log("]

/-- The keys a converter reacts to. -/
def converterKeys : List String :=
  ["AC", "DEL", "7", "8", "9", "4", "5", "6", "1", "2", "3", "0", "."]

/-- Other spellings of keys, and the keys they stand for. The root key opens its own parenthesis,
so a typed `√(` is that key. -/
def keyAliases : List (String × String) :=
  [("*", "×"), ("**", "xʸ"), ("/", "÷"), ("pi", "π"), ("sqrt(", "√("), ("√(", "√")]

/-- Everything that is read as one key, with the key. -/
def spellings : List (List Char × String) :=
  calculatorKeys.map (fun key => (key.toList, key)) ++
    keyAliases.map fun (spelling, key) => (spelling.toList, key)

/-- The longest spelling that a text starts with. -/
def longestSpelling? (cs : List Char) : Option (List Char × String) :=
  (spellings.filter fun (spelling, _) => spelling.isPrefixOf cs).foldl
    (fun best (spelling, key) =>
      match best with
      | some (longest, other) =>
        if longest.length ≤ spelling.length then some (spelling, key) else some (longest, other)
      | none => some (spelling, key))
    none

/-- The keys of a text that was typed without blanks. The longest spelling is taken each time; a
character that starts none is a key of its own. -/
def splitKeys : List Char → List String
  | [] => []
  | c :: rest =>
    match longestSpelling? (c :: rest) with
    | some (spelling, key) => key :: splitKeys (rest.drop (spelling.length - 1))
    | none => String.singleton c :: splitKeys rest
termination_by cs => cs.length
decreasing_by
  · simp only [List.length_drop, List.length_cons]
    omega
  · simp

end PocketCalculator.Keypad

import PocketCalculator.Decimal.Scientific
import PocketCalculator.Settings.Toml.Quoted
import PocketCalculator.Settings.Value
import PocketCalculator.Text.Blank

/-!
Settings in environment variables. A variable counts if its name starts with a mark; two
underscores in the rest of the name separate the keys of nested tables.
-/

namespace PocketCalculator.Settings.Environment

open PocketCalculator.Decimal

/-- The start of the names of the variables that hold settings, in any case. -/
def mark : String := "GANIT_"

def isSpace (c : Char) : Bool :=
  c == ' ' || c == '\t' || c == '\n' || c == '\x0c' || c == '\r'

def skipSpace (cs : List Char) : List Char := cs.dropWhile isSpace

/-- Whether a character ends a value without quotes. -/
def isSeparator (c : Char) : Bool := c == ',' || c == '{' || c == '}' || c == '[' || c == ']'

/-- A whole number of 64 bits, perhaps with a sign. -/
def integer? (cs : List Char) : Option Int :=
  match cs with
  | '-' :: digits =>
    let n := Nat.ofDigitChars 10 digits 0
    if digits.isEmpty || !digits.all Char.isDigit || Nat.pow 2 63 < n then none else some (-n)
  | cs =>
    let digits := (splitSign cs).2
    let n := Nat.ofDigitChars 10 digits 0
    if digits.isEmpty || !digits.all Char.isDigit || Nat.pow 2 64 ≤ n then none else some n

/-- A value without quotes: a number if it reads as one, or else a text. -/
def plain (cs : List Char) : Value :=
  if cs.contains '.' && (Scientific.ofText? cs).isSome then .fraction (String.ofList cs)
  else
    match integer? cs with
    | some n => .scalar (.integer n)
    | none => .scalar (.text (String.ofList cs))

/-- A key of a table in braces: a run of key characters or a quoted string. -/
def key? (cs : List Char) : Option (String × List Char) :=
  match cs with
  | '"' :: rest =>
    (Toml.stringTail ⟨'"', false⟩ .none rest).map fun (s, rest) => (String.ofList s, rest)
  | cs =>
    let name := cs.takeWhile isKeyChar
    if name.isEmpty then none else some (String.ofList name, cs.dropWhile isKeyChar)

mutual

def value? : Nat → List Char → Option (Value × List Char)
  | 0, _ => none
  | fuel + 1, cs =>
    let found : Option (Value × List Char) :=
      match skipSpace cs with
      | 't' :: 'r' :: 'u' :: 'e' :: rest => some (.scalar (.truth true), rest)
      | 'f' :: 'a' :: 'l' :: 's' :: 'e' :: rest => some (.scalar (.truth false), rest)
      | '{' :: rest => (members? fuel [] rest).map fun (entries, rest) => (.table entries, rest)
      | '[' :: rest => (items? fuel rest).map fun (vs, rest) => (.list vs, rest)
      | '"' :: rest =>
        (Toml.stringTail ⟨'"', false⟩ .none rest).map fun (s, rest) =>
          (.scalar (.text (String.ofList s)), rest)
      | '\'' :: rest =>
        match rest with
        | c :: '\'' :: rest => some (.scalar (.text (String.singleton c)), rest)
        | _ => none
      | cs =>
        let run := cs.takeWhile fun c => !isSeparator c
        some (plain (Text.trim run), cs.drop run.length)
    found.map fun (v, rest) => (v, skipSpace rest)

def items? : Nat → List Char → Option (List Value × List Char)
  | 0, _ => none
  | fuel + 1, cs =>
    match cs with
    | ']' :: rest => some ([], rest)
    | cs =>
      match value? fuel cs with
      | some (v, ',' :: rest) => (items? fuel rest).map fun (vs, rest) => (v :: vs, rest)
      | some (v, ']' :: rest) => some ([v], rest)
      | _ => none

/-- The entries of a table up to its closing brace, put into the entries read so far. -/
def members? : Nat → Table → List Char → Option (Table × List Char)
  | 0, _, _ => none
  | fuel + 1, entries, cs =>
    match cs with
    | '}' :: rest => some (entries, rest)
    | cs =>
      match key? (skipSpace cs) with
      | none => none
      | some (key, rest) =>
        match skipSpace rest with
        | '=' :: rest =>
          match value? fuel rest with
          | some (v, ',' :: rest) => members? fuel (Table.put key v entries) rest
          | some (v, '}' :: rest) => some (Table.put key v entries, rest)
          | _ => none
        | _ => none

end

/-- The value that a whole text is. A text that is nothing else is itself. -/
def readValue (text : String) : Value :=
  match value? (text.length + 1) text.toList with
  | some (v, []) => v
  | _ => .scalar (.text text)

def splitPoints : List Char → List (List Char)
  | [] => [[]]
  | c :: rest =>
    if c = '.' then [] :: splitPoints rest
    else
      match splitPoints rest with
      | piece :: pieces => (c :: piece) :: pieces
      | [] => [[c]]

/-- The text with each pair of underscores replaced by a point. -/
def joinNested : List Char → List Char
  | '_' :: '_' :: rest => '.' :: joinNested rest
  | c :: rest => c :: joinNested rest
  | [] => []

/-- The keys that the name of a variable stands for, outermost first. There are none if it is not
the name of a setting. -/
def keyPath (name : String) : List String :=
  let lowered := (Text.trim name.toList).map Char.toLower
  let start := (Text.lower mark).toList
  if start.isPrefixOf lowered then
    let pieces := splitPoints (joinNested (lowered.drop start.length))
    if pieces.any List.isEmpty then [] else pieces.map String.ofList
  else []

def nest (path : List String) (value : Value) : Value :=
  path.foldr (fun key inner => .table [(key, inner)]) value

/-- The settings in some variables, given by name. Of two for one setting the later one counts. -/
def read (environment : List (String × String)) : Value :=
  environment.foldl
    (fun layer (name, text) =>
      match keyPath name with
      | [] => layer
      | path => layer.overlay (nest path (readValue text)))
    (.table [])

end PocketCalculator.Settings.Environment

import PocketCalculator.Decimal.Scientific
import PocketCalculator.Settings.Value
import PocketCalculator.Text.Hexadecimal

namespace PocketCalculator.Settings.Json

open PocketCalculator.Decimal

def isSpace (c : Char) : Bool := c == ' ' || c == '\t' || c == '\n' || c == '\r'

def skipSpace (cs : List Char) : List Char := cs.dropWhile isSpace

def hexValue? (a b c d : Char) : Option Nat := Text.hexValue? [a, b, c, d]

def escape? : Char → Option Char
  | '"' => some '"'
  | '\\' => some '\\'
  | '/' => some '/'
  | 'b' => some '\x08'
  | 'f' => some '\x0c'
  | 'n' => some '\n'
  | 'r' => some '\r'
  | 't' => some '\t'
  | _ => none

/-- The text up to the closing quote, and what follows the quote. A character outside of the basic
plane may be written as two escapes, first the high half and then the low one. -/
def stringTail : List Char → Option (List Char × List Char)
  | [] => none
  | '"' :: rest => some ([], rest)
  | '\\' :: 'u' :: a :: b :: c :: d :: rest =>
    match hexValue? a b c d with
    | none => none
    | some n =>
      if 0xD800 ≤ n ∧ n < 0xDC00 then
        match rest with
        | '\\' :: 'u' :: a :: b :: c :: d :: rest =>
          match hexValue? a b c d with
          | none => none
          | some m =>
            if 0xDC00 ≤ m ∧ m < 0xE000 then
              (stringTail rest).map fun (s, rest) =>
                (Char.ofNat (0x10000 + (n - 0xD800) * 0x400 + (m - 0xDC00)) :: s, rest)
            else none
        | _ => none
      else if 0xDC00 ≤ n ∧ n < 0xE000 then none
      else (stringTail rest).map fun (s, rest) => (Char.ofNat n :: s, rest)
  | '\\' :: c :: rest =>
    match escape? c with
    | none => none
    | some c => (stringTail rest).map fun (s, rest) => (c :: s, rest)
  | c :: rest =>
    if c.toNat < 0x20 then none else (stringTail rest).map fun (s, rest) => (c :: s, rest)

def isNumeric (c : Char) : Bool :=
  c.isDigit || c == '-' || c == '+' || c == '.' || c == 'e' || c == 'E'

/-- The number that a run of numeric characters is. There is no plus sign in front, no zero before
other digits, and a point stands between digits. A whole number has 64 bits, and minus zero is
not whole. -/
def number? (cs : List Char) : Option Value :=
  match Scientific.ofText? cs with
  | none => none
  | some x =>
    let whole := x.numeral.whole
    if cs.head? = some '+' || whole.isEmpty || (whole.head? = some '0' && whole ≠ ['0']) ||
        (x.numeral.point && x.numeral.fraction.isEmpty) || !x.isFinite then none
    else
      let n := Nat.ofDigitChars 10 whole 0
      if x.numeral.point || x.power.isSome || (x.negative && (n = 0 || Nat.pow 2 63 < n)) ||
          Nat.pow 2 64 ≤ n then
        some (.fraction (String.ofList cs))
      else some (.scalar (.integer (if x.negative then -n else n)))

mutual

/-- A value at the start of a text, and the text after it. At most `depth` lists and tables may
lie inside each other. -/
def value : Nat → Nat → List Char → Option (Value × List Char)
  | 0, _, _ => none
  | fuel + 1, depth, cs =>
    match cs with
    | 'n' :: 'u' :: 'l' :: 'l' :: rest => some (.scalar .empty, rest)
    | 't' :: 'r' :: 'u' :: 'e' :: rest => some (.scalar (.truth true), rest)
    | 'f' :: 'a' :: 'l' :: 's' :: 'e' :: rest => some (.scalar (.truth false), rest)
    | '"' :: rest =>
      (stringTail rest).map fun (s, rest) => (.scalar (.text (String.ofList s)), rest)
    | '[' :: rest =>
      if depth = 0 then none
      else
        match skipSpace rest with
        | ']' :: rest => some (.list [], rest)
        | rest => (items fuel (depth - 1) rest).map fun (xs, rest) => (.list xs, rest)
    | '{' :: rest =>
      if depth = 0 then none
      else
        match skipSpace rest with
        | '}' :: rest => some (.table [], rest)
        | rest => (members fuel (depth - 1) [] rest).map fun (es, rest) => (.table es, rest)
    | cs => (number? (cs.takeWhile isNumeric)).map fun v => (v, cs.dropWhile isNumeric)

def items : Nat → Nat → List Char → Option (List Value × List Char)
  | 0, _, _ => none
  | fuel + 1, depth, cs =>
    match value fuel depth cs with
    | none => none
    | some (v, rest) =>
      match skipSpace rest with
      | ',' :: rest => (items fuel depth (skipSpace rest)).map fun (vs, rest) => (v :: vs, rest)
      | ']' :: rest => some ([v], rest)
      | _ => none

/-- The entries of a table up to its closing brace, put into the entries read so far. Of two
entries with one key the later one counts. -/
def members : Nat → Nat → Table → List Char → Option (Table × List Char)
  | fuel + 1, depth, entries, '"' :: rest =>
    match stringTail rest with
    | none => none
    | some (key, rest) =>
      match skipSpace rest with
      | ':' :: rest =>
        match value fuel depth (skipSpace rest) with
        | none => none
        | some (v, rest) =>
          let entries := Table.put (String.ofList key) v entries
          match skipSpace rest with
          | ',' :: rest => members fuel depth entries (skipSpace rest)
          | '}' :: rest => some (entries, rest)
          | _ => none
      | _ => none
  | _, _, _, _ => none

end

def maxDepth : Nat := 127

def read (text : String) : Option Value :=
  let cs := skipSpace text.toList
  match value (cs.length + 1) maxDepth cs with
  | some (.table entries, rest) => if (skipSpace rest).isEmpty then some (.table entries) else none
  | _ => none

def encodeChar (c : Char) : List Char :=
  match c with
  | '"' => ['\\', '"']
  | '\\' => ['\\', '\\']
  | '\x08' => ['\\', 'b']
  | '\x0c' => ['\\', 'f']
  | '\n' => ['\\', 'n']
  | '\r' => ['\\', 'r']
  | '\t' => ['\\', 't']
  | c =>
    if c.toNat < 0x20 then
      ['\\', 'u', '0', '0', Nat.digitChar (c.toNat / 16), Nat.digitChar (c.toNat % 16)]
    else [c]

def quoted (s : String) : List Char := '"' :: (s.toList.flatMap encodeChar ++ ['"'])

def scalarText : Scalar → List Char
  | .text s => quoted s
  | .truth b => (if b then "true" else "false").toList
  | .integer n => n.repr.toList
  | .empty => "null".toList

/-- Entries between braces, each on a line of its own with an indent before it. -/
def lines (indent : List Char) : List (List Char) → List Char
  | [] => []
  | [line] => indent ++ line ++ ['\n']
  | line :: rest => indent ++ line ++ ',' :: '\n' :: lines indent rest

def entryLine (entry : String × Scalar) : List Char :=
  quoted entry.1 ++ ':' :: ' ' :: scalarText entry.2

def write (document : Document) : String :=
  let members := lines [' ', ' ', ' ', ' '] (document.members.map entryLine)
  let nested := quoted document.name ++ [':', ' ', '{', '\n'] ++ members ++ [' ', ' ', '}']
  String.ofList
    ('{' :: '\n' :: (lines [' ', ' '] (document.entries.map entryLine ++ [nested]) ++ ['}']))

end PocketCalculator.Settings.Json

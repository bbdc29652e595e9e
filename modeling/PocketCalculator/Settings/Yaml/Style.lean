import PocketCalculator.Settings.Yaml.Cursor
import PocketCalculator.Settings.Yaml.Plain

namespace PocketCalculator.Settings.Yaml

def isPrintable (c : Char) : Bool :=
  let n := c.toNat
  n == 0x0A || (0x20 ≤ n && n ≤ 0x7E) || (0xA0 ≤ n && n ≤ 0xFFFD && n ≠ 0xFEFF)

/-- How a text is laid out in blanks and line breaks. -/
structure Layout where
  leadingGap : Bool
  trailingSpace : Bool
  trailingBreak : Bool
  hasBreak : Bool
  breakBeforeSpace : Bool
  spaceBeforeBreak : Bool
  special : Bool
deriving DecidableEq, Repr

/-- Whether somewhere in a text a character with the first property stands right before one with
the second. -/
def hasPair (first second : Char → Bool) : List Char → Bool
  | a :: b :: rest => (first a && second b) || hasPair first second (b :: rest)
  | _ => false

def Layout.ofText (cs : List Char) : Layout where
  leadingGap := (cs.head?.map fun c => c == ' ' || isBreak c).getD false
  trailingSpace := cs.getLast? == some ' '
  trailingBreak := (cs.getLast?.map isBreak).getD false
  hasBreak := cs.any isBreak
  breakBeforeSpace := hasPair isBreak (· == ' ') cs
  spaceBeforeBreak := hasPair (· == ' ') isBreak cs
  special := cs.any fun c => !isPrintable c

/-- Whether some character after the first would start a comment or end a key. -/
def hasInnerIndicator : Char → List Char → Bool
  | _, [] => false
  | before, c :: rest =>
    (c == ':' && startsGap rest) || (c == '#' && isGap before) || hasInnerIndicator c rest

/-- Whether a text would be read as something else than a scalar without quotes. -/
def hasIndicator (cs : List Char) : Bool :=
  match cs with
  | [] => false
  | c :: rest =>
    ['#', ',', '[', ']', '{', '}', '&', '*', '!', '|', '>', '\'', '"', '%', '@', '`'].contains c ||
      ((c == '?' || c == ':' || c == '-') && startsGap rest) ||
      ['-', '-', '-'].isPrefixOf cs || ['.', '.', '.'].isPrefixOf cs || hasInnerIndicator c rest

/-- Words that some readers take for truth values. -/
def truthWords : List String :=
  ["y", "Y", "yes", "Yes", "YES", "n", "N", "no", "No", "NO", "true", "True", "TRUE", "false",
    "False", "FALSE", "on", "On", "ON", "off", "Off", "OFF"]

inductive Style where
  | plain
  | single
  | double
  | block
deriving DecidableEq, Repr

/-- The style that would suit a text if its characters allowed it. -/
def wantedStyle (cs : List Char) : Style :=
  if truthWords.contains (String.ofList cs) then .single
  else if cs.contains '\n' then .block
  else
    match resolve cs with
    | .scalar (.text _) => if isPadded cs then .single else .plain
    | _ => .single

def styleOf (cs : List Char) : Style :=
  let layout := Layout.ofText cs
  let quotable := !layout.breakBeforeSpace && !layout.spaceBeforeBreak && !layout.special
  let quotes := if quotable then Style.single else .double
  match wantedStyle cs with
  | .plain =>
    if quotable && !layout.leadingGap && !layout.trailingSpace && !layout.trailingBreak &&
        !layout.hasBreak && !hasIndicator cs then
      .plain
    else quotes
  | .single => quotes
  | .double => .double
  | .block =>
    if layout.trailingSpace || layout.spaceBeforeBreak || layout.special then .double else .block

def encodeChar (c : Char) : List Char :=
  match c with
  | '\x00' => ['\\', '0']
  | '\x07' => ['\\', 'a']
  | '\x08' => ['\\', 'b']
  | '\t' => ['\\', 't']
  | '\n' => ['\\', 'n']
  | '\x0b' => ['\\', 'v']
  | '\x0c' => ['\\', 'f']
  | '\r' => ['\\', 'r']
  | '\x1b' => ['\\', 'e']
  | '"' => ['\\', '"']
  | '\\' => ['\\', '\\']
  | '\x85' => ['\\', 'N']
  | '\u2028' => ['\\', 'L']
  | '\u2029' => ['\\', 'P']
  | c =>
    if isPrintable c then [c]
    else if c.toNat ≤ 0xFF then '\\' :: 'x' :: Text.hexDigits 2 c.toNat
    else if c.toNat ≤ 0xFFFF then '\\' :: 'u' :: Text.hexDigits 4 c.toNat
    else '\\' :: 'U' :: Text.hexDigits 8 c.toNat

/-- The characters of a text with an indent on every line but the empty ones. `fresh` says whether
the text starts on a line of its own. -/
def indented (indent : Nat) : Bool → List Char → List Char
  | _, [] => []
  | fresh, c :: rest =>
    if isBreak c then c :: indented indent true rest
    else (if fresh then List.replicate indent ' ' else []) ++ c :: indented indent false rest

def doubleQuotes (cs : List Char) : List Char :=
  cs.flatMap fun c => if c = '\'' then ['\'', '\''] else [c]

/-- The signs after the mark of a block. The indent is named if the text itself starts with a blank
or a break; a text without a break at its end drops one, and one with several keeps them. -/
def blockSigns (cs : List Char) : List Char :=
  let step := if (Layout.ofText cs).leadingGap then ['2'] else []
  let chomp :=
    match cs.reverse with
    | [] => ['-']
    | [c] => if isBreak c then ['+'] else ['-']
    | c :: d :: _ => if !isBreak c then ['-'] else if isBreak d then ['+'] else []
  step ++ chomp

/-- The written form of a text at an indent, up to the end of its last line. -/
def written (indent : Nat) (text : String) : List Char :=
  let cs := text.toList
  match styleOf cs with
  | .plain => cs ++ ['\n']
  | .single =>
    let padding :=
      if (Layout.ofText cs).trailingBreak then List.replicate indent ' ' else []
    '\'' :: (indented indent false (doubleQuotes cs) ++ padding ++ ['\'', '\n'])
  | .double => '"' :: (cs.flatMap encodeChar ++ ['"', '\n'])
  | .block =>
    '|' :: (blockSigns cs ++ '\n' :: indented indent true cs ++
      if (Layout.ofText cs).trailingBreak then [] else ['\n'])

end PocketCalculator.Settings.Yaml

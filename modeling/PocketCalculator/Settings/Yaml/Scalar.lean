import PocketCalculator.Settings.Yaml.Cursor
import PocketCalculator.Settings.Yaml.Plain

namespace PocketCalculator.Settings.Yaml

def escape? : Char → Option Char
  | '0' => some '\x00'
  | 'a' => some '\x07'
  | 'b' => some '\x08'
  | 't' => some '\t'
  | '\t' => some '\t'
  | 'n' => some '\n'
  | 'v' => some '\x0b'
  | 'f' => some '\x0c'
  | 'r' => some '\r'
  | 'e' => some '\x1b'
  | ' ' => some ' '
  | '"' => some '"'
  | '/' => some '/'
  | '\\' => some '\\'
  | 'N' => some '\x85'
  | '_' => some '\xa0'
  | 'L' => some '\u2028'
  | 'P' => some '\u2029'
  | _ => none

/-- What the blanks and line breaks before a character stand for. After an escaped line break only
further breaks count. -/
def pendingText (joined : Bool) (pending : List Char) : List Char :=
  if joined then pending.filter isBreak else folded pending

/-- Whether a document boundary comes right after some blanks and line breaks. -/
def meetsBoundary (pending rest : List Char) : Bool :=
  (pending.getLast?.map isBreak).getD false && isBoundary rest

/-- The text up to the closing double quote, and what follows it. -/
def doubleTail : Bool → List Char → List Char → Option (List Char × List Char)
  | _, _, [] => none
  | joined, pending, c :: rest =>
    let lead := pendingText joined pending
    let push (d : Char) (tail : Option (List Char × List Char)) :=
      tail.map fun (text, rest) => (lead ++ d :: text, rest)
    if isGap c then doubleTail joined (pending ++ [c]) rest
    else if meetsBoundary pending (c :: rest) then none
    else if c = '"' then some (lead, rest)
    else if c = '\\' then
      match rest with
      | 'x' :: a :: b :: rest =>
        match Text.codePoint? [a, b] with
        | some d => push d (doubleTail false [] rest)
        | none => none
      | 'u' :: a :: b :: c :: d :: rest =>
        match Text.codePoint? [a, b, c, d] with
        | some d => push d (doubleTail false [] rest)
        | none => none
      | 'U' :: a :: b :: c :: d :: e :: f :: g :: h :: rest =>
        match Text.codePoint? [a, b, c, d, e, f, g, h] with
        | some d => push d (doubleTail false [] rest)
        | none => none
      | d :: rest =>
        if isBreak d then
          (doubleTail true [] rest).map fun (text, rest) => (lead ++ text, rest)
        else
          match escape? d with
          | some d => push d (doubleTail false [] rest)
          | none => none
      | [] => none
    else push c (doubleTail false [] rest)

/-- The text up to the closing single quote, and what follows it. Two quotes stand for one. -/
def singleTail : List Char → List Char → Option (List Char × List Char)
  | _, [] => none
  | pending, c :: rest =>
    let push (d : Char) (tail : Option (List Char × List Char)) :=
      tail.map fun (text, rest) => (folded pending ++ d :: text, rest)
    if isGap c then singleTail (pending ++ [c]) rest
    else if meetsBoundary pending (c :: rest) then none
    else if c = '\'' then
      match rest with
      | '\'' :: rest => push '\'' (singleTail [] rest)
      | rest => some (folded pending, rest)
    else push c (singleTail [] rest)

def quoted? (cursor : Cursor) : Option (List Char × Cursor) :=
  match cursor.rest with
  | '"' :: rest => (doubleTail false [] rest).map fun (text, rest) => (text, cursor.moveTo rest)
  | '\'' :: rest => (singleTail [] rest).map fun (text, rest) => (text, cursor.moveTo rest)
  | _ => none

def isIndicator (c : Char) : Bool :=
  [',', '[', ']', '{', '}', '#', '&', '*', '!', '|', '>', '\'', '"', '%', '@', '`'].contains c

def endsFlow (c : Char) : Bool := [',', '[', ']', '{', '}'].contains c

def startsPlain (flow : Bool) : List Char → Bool
  | [] => false
  | '-' :: rest => !startsGap rest
  | '?' :: rest => !flow && !startsGap rest
  | ':' :: rest => !flow && !startsGap rest
  | c :: _ => !isIndicator c && !isGap c

/-- Whether a text starts in a way that no colon between brackets may stand before. -/
def startsClash : List Char → Bool
  | [] => false
  | c :: _ => endsFlow c || c == '?'

/-- The part of a scalar without quotes up to the next blank. A colon before a blank ends it. -/
def word (flow : Bool) : List Char → List Char
  | [] => []
  | c :: rest =>
    if isGap c || (flow && endsFlow c) then []
    else if c = ':' && (startsGap rest || (flow && startsClash rest)) then []
    else c :: word flow rest

/-- A scalar without quotes, which runs over lines that are indented by `indent` columns. -/
def plainText (flow : Bool) (indent : Nat) : Nat → Cursor → List Char × Cursor
  | 0, cursor => ([], cursor)
  | fuel + 1, cursor =>
    let first := word flow cursor.rest
    let stop := cursor.moveTo (cursor.rest.drop first.length)
    let gap := stop.rest.takeWhile isGap
    let next := stop.moveTo (stop.rest.drop gap.length)
    if gap.isEmpty || next.rest.head? = some '#' || (word flow next.rest).isEmpty ||
        (next.fresh && ((!flow && next.column < indent) || next.atEnd)) then
      (first, next)
    else
      let (more, last) := plainText flow indent fuel next
      (first ++ folded gap ++ more, last)

/-- A scalar on one line or folded over several: its text, what it means, and what follows. -/
def scalar? (flow : Bool) (indent : Nat) (cursor : Cursor) :
    Option (List Char × Value × Cursor) :=
  match quoted? cursor with
  | some (text, next) => some (text, .scalar (.text (String.ofList text)), next)
  | none =>
    if startsPlain flow cursor.rest then
      let (text, next) := plainText flow indent (cursor.rest.length + 1) cursor
      let clash :=
        match next.rest with
        | ':' :: rest => !startsGap rest
        | _ => false
      if flow && clash then none else some (text, resolve text, next)
    else none

/-- What becomes of the line breaks at the end of a block. -/
inductive Chomp where
  | clip
  | strip
  | keep
deriving DecidableEq, Repr

def chomp? : Char → Option Chomp
  | '+' => some .keep
  | '-' => some .strip
  | _ => none

/-- The digit that says by how much a block is indented. -/
def step? (c : Char) : Option Nat :=
  if c.isDigit ∧ c ≠ '0' then some (c.toNat - '0'.toNat) else none

/-- The signs after the mark of a block: how it ends, and by how much it is indented. The indent is
zero if it is not said. -/
def blockSigns? : List Char → Option (Chomp × Nat)
  | [] => some (.clip, 0)
  | [a] =>
    match chomp? a with
    | some chomp => some (chomp, 0)
    | none => (step? a).map fun step => (.clip, step)
  | [a, b] =>
    match chomp? a, step? b with
    | some chomp, some step => some (chomp, step)
    | _, _ =>
      match step? a, chomp? b with
      | some step, some chomp => some (chomp, step)
      | _, _ => none
  | _ => none

def isBlockSign (c : Char) : Bool := c == '+' || c == '-' || c.isDigit

abbrev Line := List Char × List Char

def lines : List Char → List Line
  | [] => []
  | c :: rest =>
    if isBreak c then ([], [c]) :: lines rest
    else
      match lines rest with
      | [] => [([c], [])]
      | (text, ending) :: more => (c :: text, ending) :: more

/-- The column of the first character of a line that is not a space. -/
def lineIndent (line : Line) : Nat := (line.1.takeWhile (· == ' ')).length

def isEmptyLine (line : Line) : Bool := line.1.all (· == ' ') && !line.2.isEmpty

/-- The indent of a block that does not name it: that of its first line with a text, at least
`low`. Lines before that may not be indented further. -/
def findIndent? (low : Nat) : List Line → Option Nat
  | [] => some (max low 1)
  | line :: rest =>
    if isEmptyLine line then findIndent? (max low (lineIndent line)) rest
    else if (line.1.drop (lineIndent line)).head? = some '\t' then none
    else some (max (max low (lineIndent line)) 1)

/-- The lines of a block, joined to a text; then its last line break, the empty lines after it, and
what follows the block. When lines are folded, a break between two of them is a blank unless one of
them starts with a blank. -/
def blockText (fold : Bool) (indent : Nat) (afterBlank : Bool) (ending empties : List Char) :
    List Line → List Char × List Char × List Char × List Line
  | [] => ([], ending, empties, [])
  | line :: rest =>
    if isEmptyLine line && line.1.length ≤ indent then
      blockText fold indent afterBlank ending (empties ++ line.2) rest
    else if lineIndent line < indent || (line.2.isEmpty && line.1.length ≤ indent) then
      ([], ending, empties, line :: rest)
    else
      let text := line.1.drop indent
      let blank := (text.head?.map Text.isSpaceOrTab).getD false
      let joint :=
        if fold && ending = ['\n'] && !afterBlank && !blank then
          (if empties.isEmpty then [' '] else [])
        else ending
      let (more, result) := blockText fold indent blank line.2 [] rest
      (joint ++ empties ++ text ++ more, result)

/-- What follows the blanks and the comment at the end of a line. -/
def afterComment (cs : List Char) : List Char :=
  match cs.dropWhile Text.isSpaceOrTab with
  | '#' :: rest => rest.dropWhile fun c => !isBreak c
  | rest => rest

def block? (fold : Bool) (indent : Nat) (cs : List Char) : Option (List Char × Cursor) :=
  match blockSigns? (cs.takeWhile isBlockSign), lines (afterComment (cs.dropWhile isBlockSign)) with
  | some _, [] => some ([], ⟨0, true, []⟩)
  | some (chomp, step), ([], _) :: body =>
    match if step = 0 then findIndent? indent body else some (indent - 1 + step) with
    | none => none
    | some column =>
      let (text, ending, empties, more) := blockText fold column false [] [] body
      let text :=
        match chomp with
        | .clip => text ++ ending
        | .strip => text
        | .keep => text ++ ending ++ empties
      some (text, ⟨0, true, more.flatMap fun line => line.1 ++ line.2⟩)
  | _, _ => none

end PocketCalculator.Settings.Yaml

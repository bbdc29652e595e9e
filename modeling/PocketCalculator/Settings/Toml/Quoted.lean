import PocketCalculator.Text.Blank
import PocketCalculator.Text.Hexadecimal

namespace PocketCalculator.Settings.Toml

/-- The characters that may stand in a string or a comment as they are. -/
def isPlain (c : Char) : Bool := c == '\t' || (0x20 ≤ c.toNat && c.toNat ≠ 0x7F)

def escape? : Char → Option Char
  | '"' => some '"'
  | '\\' => some '\\'
  | 'b' => some '\x08'
  | 'f' => some '\x0c'
  | 'n' => some '\n'
  | 'r' => some '\r'
  | 't' => some '\t'
  | _ => none

structure Quotes where
  quote : Char
  long : Bool
deriving DecidableEq, Repr

/-- What a backslash at the end of a line leaves out: blanks up to the end of the line, and then
all blanks and line breaks. -/
inductive Gap where
  | none
  | toLineEnd
  | toText
deriving DecidableEq, Repr

/-- The text up to the closing quotes, and what follows them. A long string may end in up to two
quotes of its own. -/
def stringTail (quotes : Quotes) : Gap → List Char → Option (List Char × List Char)
  | _, [] => Option.none
  | gap, c :: rest =>
    let push (d : Char) (tail : Option (List Char × List Char)) :=
      tail.map fun (text, rest) => (d :: text, rest)
    if gap = .toLineEnd then
      if c = '\n' then stringTail quotes .toText rest
      else if Text.isSpaceOrTab c then stringTail quotes .toLineEnd rest
      else Option.none
    else if gap = .toText ∧ (c = '\n' ∨ Text.isSpaceOrTab c) then stringTail quotes .toText rest
    else if c = quotes.quote then
      if quotes.long then
        let run := (rest.takeWhile (· == c)).length
        if run < 2 then push c (stringTail quotes .none rest)
        else
          let own := min 2 (run - 2)
          some (List.replicate own c, rest.drop (2 + own))
      else some ([], rest)
    else if c = '\\' ∧ quotes.quote = '"' then
      match rest with
      | 'u' :: a :: b :: c :: d :: rest =>
        match Text.codePoint? [a, b, c, d] with
        | some x => push x (stringTail quotes .none rest)
        | Option.none => Option.none
      | 'U' :: a :: b :: c :: d :: e :: f :: g :: h :: rest =>
        match Text.codePoint? [a, b, c, d, e, f, g, h] with
        | some x => push x (stringTail quotes .none rest)
        | Option.none => Option.none
      | x :: rest =>
        match escape? x with
        | some x => push x (stringTail quotes .none rest)
        | Option.none =>
          if quotes.long then
            if x = '\n' then stringTail quotes .toText rest
            else if Text.isSpaceOrTab x then stringTail quotes .toLineEnd rest
            else Option.none
          else Option.none
      | [] => Option.none
    else if isPlain c ∨ (quotes.long ∧ c = '\n') then push c (stringTail quotes .none rest)
    else Option.none

def shortString? : List Char → Option (List Char × List Char)
  | '"' :: rest => stringTail ⟨'"', false⟩ .none rest
  | '\'' :: rest => stringTail ⟨'\'', false⟩ .none rest
  | _ => none

/-- A long string, without a line break right at its start. -/
def longTail (quote : Char) : List Char → Option (List Char × List Char)
  | '\n' :: rest => stringTail ⟨quote, true⟩ .none rest
  | rest => stringTail ⟨quote, true⟩ .none rest

def string? : List Char → Option (List Char × List Char)
  | '"' :: '"' :: '"' :: rest => longTail '"' rest
  | '\'' :: '\'' :: '\'' :: rest => longTail '\'' rest
  | cs => shortString? cs

def longestRun (c : Char) : List Char → Nat
  | [] => 0
  | d :: rest => max ((d :: rest).takeWhile (· == c)).length (longestRun c rest)

def needsEscape (c : Char) : Bool := !isPlain c && c != '\n'

/-- The kind of string for a text: double quotes if nothing in it has to be escaped, single quotes
if they save an escape, more than one line if the text has some. -/
def chooseQuotes (text : List Char) : Quotes :=
  let lines := text.contains '\n'
  let singles := longestRun '\'' text
  let doubles := longestRun '"' text
  if text.any needsEscape then ⟨'"', lines⟩
  else if !text.contains '\\' && doubles = 0 && !lines then ⟨'"', false⟩
  else if singles = 0 && !lines then ⟨'\'', false⟩
  else if !text.contains '\\' && doubles ≤ 2 then ⟨'"', true⟩
  else if singles ≤ 2 then ⟨'\'', true⟩
  else ⟨'"', lines⟩

/-- The text between double quotes. In a long string, line breaks stay and only every third quote
of a run is escaped. -/
def encode (long : Bool) : Nat → List Char → List Char
  | _, [] => []
  | run, c :: rest =>
    if c = '"' then
      if long && run < 2 then c :: encode long (run + 1) rest
      else '\\' :: '"' :: encode long 0 rest
    else
      let written :=
        match c with
        | '\x08' => ['\\', 'b']
        | '\t' => ['\\', 't']
        | '\n' => if long then ['\n'] else ['\\', 'n']
        | '\x0c' => ['\\', 'f']
        | '\r' => ['\\', 'r']
        | '\\' => ['\\', '\\']
        | c => if needsEscape c then '\\' :: 'u' :: Text.hexDigits 4 c.toNat else [c]
      written ++ encode long 0 rest

/-- The written form of a text. A long string starts on a line of its own if it has line
breaks. -/
def quoted (text : String) : List Char :=
  let cs := text.toList
  let quotes := chooseQuotes cs
  let mark := List.replicate (if quotes.long then 3 else 1) quotes.quote
  let start := if quotes.long && cs.contains '\n' then ['\n'] else []
  mark ++ start ++ (if quotes.quote = '"' then encode quotes.long 0 cs else cs) ++ mark

end PocketCalculator.Settings.Toml

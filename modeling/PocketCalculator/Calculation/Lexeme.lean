import PocketCalculator.Calculation.Token
import PocketCalculator.Decimal.Numeral
import PocketCalculator.Text.Blank

namespace PocketCalculator.Calculation

/-- Why a text is no sequence of lexemes. Positions count characters from the start. -/
inductive LexicalFault where
  | unexpectedCharacter (c : Char) (position : Nat)
  | secondPoint (position : Nat)
  | lonePoint
  | unknownIdentifier (word : List Char) (position : Nat)
  | unknownFunction (f : MathFunction)
deriving DecidableEq

/-- The tokens of a run of letters. No keyword starts another, so the split is the only one. A
function that is not offered is refused where it is met. -/
def splitLetters (scientific : Bool) (unknown : LexicalFault) :
    List Char → Except LexicalFault (List Token)
  | [] => .ok []
  | 's' :: 'q' :: 'r' :: 't' :: rest =>
    (splitLetters scientific unknown rest).map (.function .sqrt :: ·)
  | 's' :: 'i' :: 'n' :: rest =>
    if scientific then (splitLetters scientific unknown rest).map (.function .sin :: ·)
    else .error (.unknownFunction .sin)
  | 'c' :: 'o' :: 's' :: rest =>
    if scientific then (splitLetters scientific unknown rest).map (.function .cos :: ·)
    else .error (.unknownFunction .cos)
  | 't' :: 'a' :: 'n' :: rest =>
    if scientific then (splitLetters scientific unknown rest).map (.function .tan :: ·)
    else .error (.unknownFunction .tan)
  | 'l' :: 'o' :: 'g' :: rest =>
    if scientific then (splitLetters scientific unknown rest).map (.function .log :: ·)
    else .error (.unknownFunction .log)
  | 'M' :: 'o' :: 'd' :: rest => (splitLetters scientific unknown rest).map (.modulo :: ·)
  | 'e' :: rest => (splitLetters scientific unknown rest).map (.euler :: ·)
  | _ => .error unknown

/-- The operator, parenthesis or sign that starts with `c`, and how many characters it takes after
the first. Only `**` looks further than its first character. -/
def symbol? (c : Char) (rest : List Char) : Option (Token × Nat) :=
  match c with
  | '+' => some (.plus, 0)
  | '-' => some (.minus .ascii, 0)
  | '−' => some (.minus .sign, 0)
  | '*' => if rest.head? = some '*' then some (.power .stars, 1) else some (.times .ascii, 0)
  | '×' => some (.times .sign, 0)
  | '/' => some (.divide .ascii, 0)
  | '÷' => some (.divide .sign, 0)
  | '%' => some (.percent, 0)
  | '^' => some (.power .caret, 0)
  | '(' => some (.openParen, 0)
  | ')' => some (.closeParen, 0)
  | 'π' => some (.pi, 0)
  | '√' => some (.function .sqrt, 0)
  | _ => none

/-- The tokens of the blank, numeral, run of letters or symbol that starts with `c`, and how many
characters it takes after the first. -/
def lexeme (scientific : Bool) (position : Nat) (c : Char) (rest : List Char) :
    Except LexicalFault (List Token × Nat) :=
  if Text.isBlank c then .ok ([], 0)
  else if c.isDigit || c == '.' then
    let (numeral, after) := Decimal.Numeral.scan (c :: rest)
    if after.head? = some '.' then .error (.secondPoint position)
    else if numeral.isEmpty then .error .lonePoint
    else .ok ([.number (numeral.toFloat false)], numeral.width - 1)
  else if c.isAlpha then
    let word := (c :: rest).takeWhile Char.isAlpha
    (splitLetters scientific (.unknownIdentifier word position) word).map
      fun tokens => (tokens, word.length - 1)
  else
    match symbol? c rest with
    | some (token, further) => .ok ([token], further)
    | none => .error (.unexpectedCharacter c position)

/-- The tokens of a text whose first character stands at `position`. -/
def tokensFrom (scientific : Bool) (position : Nat) : List Char → Except LexicalFault (List Token)
  | [] => .ok []
  | c :: rest =>
    match lexeme scientific position c rest with
    | .error fault => .error fault
    | .ok (tokens, further) =>
      (tokensFrom scientific (position + 1 + further) (rest.drop further)).map (tokens ++ ·)
termination_by cs => cs.length
decreasing_by simp only [List.length_drop, List.length_cons]; omega

/-- The tokens of an expression. The functions of the scientific keypad can be switched off. -/
def tokenize (scientific : Bool) (text : String) : Except LexicalFault (List Token) :=
  tokensFrom scientific 0 text.toList

namespace LexicalFault

def message : LexicalFault → String
  | unexpectedCharacter c position =>
    "unexpected character '" ++ String.singleton c ++ "' at position " ++ position.repr
  | secondPoint position => "malformed number at position " ++ position.repr
  | lonePoint => "malformed number '.'"
  | unknownIdentifier word position =>
    "unknown identifier '" ++ String.ofList word ++ "' at position " ++ position.repr
  | unknownFunction f => "unknown function '" ++ f.name ++ "'"

end LexicalFault

end PocketCalculator.Calculation

import PocketCalculator.Calculation.Tree

/-!
Expressions as trees. Lowest precedence first, the grammar is

* sum: products joined by `+` and `-`;
* product: operands joined by `×`, `÷` and `Mod`, each step perhaps followed by percent signs, and
  a percent sign perhaps by `^` and an operand, which the hundred takes as its exponent;
* operand: a sign and an operand, or a power;
* power: a primary, perhaps followed by `^` and an operand;
* primary: a number, a constant, or a sum in parentheses, perhaps after a function.

The inside of parentheses, the operand of a sign and an exponent lie one level deeper than what
they stand in. The phrases of one level are built from those of the level below it, so the number
of levels left is what the recursion runs on.
-/

namespace PocketCalculator.Calculation

/-- Why a sequence of tokens is no expression. -/
inductive SyntaxFault where
  | emptyExpression
  | tooLong (count : Nat)
  | unmatchedClose
  | afterExpression (token : Token)
  | unexpected (token : Token)
  | unexpectedEnd
  | missingArgument (f : MathFunction)
  | emptyParentheses
  | expectedClose (token : Token)
  | missingClose
  | nestedTooDeeply
deriving DecidableEq

/-- A tree read from the start of a sequence of tokens, and the tokens after it. -/
structure Parsed (tokens : List Token) where
  tree : Tree
  rest : List Token
  shorter : rest.length < tokens.length

namespace Parsed

/-- A parse of a later part of some tokens, as a parse of all of them with another tree. -/
def extend {tokens later : List Token} (p : Parsed later) (tree : Tree)
    (h : later.length ≤ tokens.length) : Parsed tokens :=
  ⟨tree, p.rest, Nat.lt_of_lt_of_le p.shorter h⟩

end Parsed

/-- A way to read a tree from the start of a sequence of tokens. -/
abbrev Phrase := (tokens : List Token) → Except SyntaxFault (Parsed tokens)

/-- The two phrases that can stand one level deeper. -/
structure Level where
  operand : Phrase
  sum : Phrase

def signOf? : Token → Option SignOperator
  | .plus => some .plus
  | .minus _ => some .negate
  | _ => none

def additive? : Token → Option BinaryOperator
  | .plus => some .add
  | .minus _ => some .subtract
  | _ => none

def multiplicative? : Token → Option BinaryOperator
  | .times _ => some .multiply
  | .divide _ => some .divide
  | .modulo => some .modulo
  | _ => none

def group (inner : Level) : Phrase
  | .closeParen :: _ => .error .emptyParentheses
  | tokens =>
    match inner.sum tokens with
    | .error fault => .error fault
    | .ok p =>
      match h : p.rest with
      | .closeParen :: rest => .ok ⟨p.tree, rest, by have := p.shorter; grind⟩
      | token :: _ => .error (.expectedClose token)
      | [] => .error .missingClose

def primary (inner : Level) : Phrase
  | .number value :: rest => .ok ⟨.number value, rest, by simp⟩
  | .pi :: rest => .ok ⟨.number pi, rest, by simp⟩
  | .euler :: rest => .ok ⟨.number euler, rest, by simp⟩
  | .openParen :: rest => (group inner rest).map fun p => p.extend p.tree (by simp)
  | .function f :: .openParen :: rest =>
    (group inner rest).map fun p => p.extend (.call f p.tree) (by simp; omega)
  | .function f :: _ => .error (.missingArgument f)
  | token :: _ => .error (.unexpected token)
  | [] => .error .unexpectedEnd

def power (inner : Level) (tokens : List Token) : Except SyntaxFault (Parsed tokens) :=
  match primary inner tokens with
  | .error fault => .error fault
  | .ok base =>
    match h : base.rest with
    | .power _ :: rest =>
      (inner.operand rest).map fun p =>
        p.extend (.binary .power base.tree p.tree) (by have := base.shorter; grind)
    | _ => .ok base

def operand (inner : Level) : Phrase
  | [] => power inner []
  | token :: rest =>
    match signOf? token with
    | some op => (inner.operand rest).map fun p => p.extend (.sign op p.tree) (by simp)
    | none => power inner (token :: rest)

/-- Goes on with a product whose first operands have been read. -/
def productTail (inner : Level) {tokens : List Token} (p : Parsed tokens) :
    Except SyntaxFault (Parsed tokens) :=
  match h : p.rest with
  | [] => .ok p
  | .percent :: .power _ :: rest =>
    match inner.operand rest with
    | .error fault => .error fault
    | .ok q =>
      productTail inner
        (q.extend (.binary .divide p.tree (.binary .power (.number 100) q.tree))
          (by have := p.shorter; grind))
  | .percent :: rest =>
    productTail inner (⟨.percent p.tree, rest, by have := p.shorter; grind⟩ : Parsed tokens)
  | token :: rest =>
    match multiplicative? token with
    | none => .ok p
    | some op =>
      match operand inner rest with
      | .error fault => .error fault
      | .ok q =>
        productTail inner
          (q.extend (.binary op p.tree q.tree) (by have := p.shorter; grind))
termination_by p.rest.length
decreasing_by
  · have := q.shorter
    simp only [Parsed.extend, h, List.length_cons]
    omega
  · simp only [h, List.length_cons]
    omega
  · have := q.shorter
    simp only [Parsed.extend, h, List.length_cons]
    omega

def product (inner : Level) (tokens : List Token) : Except SyntaxFault (Parsed tokens) :=
  match operand inner tokens with
  | .error fault => .error fault
  | .ok p => productTail inner p

/-- Goes on with a sum whose first products have been read. -/
def sumTail (inner : Level) {tokens : List Token} (p : Parsed tokens) :
    Except SyntaxFault (Parsed tokens) :=
  match h : p.rest with
  | [] => .ok p
  | token :: rest =>
    match additive? token with
    | none => .ok p
    | some op =>
      match product inner rest with
      | .error fault => .error fault
      | .ok q =>
        sumTail inner (q.extend (.binary op p.tree q.tree) (by have := p.shorter; grind))
termination_by p.rest.length
decreasing_by
  have := q.shorter
  simp only [Parsed.extend, h, List.length_cons]
  omega

def sum (inner : Level) (tokens : List Token) : Except SyntaxFault (Parsed tokens) :=
  match product inner tokens with
  | .error fault => .error fault
  | .ok p => sumTail inner p

/-- The phrases with the given number of levels left; with none left they refuse everything. -/
def level : Nat → Level
  | 0 => ⟨fun _ => .error .nestedTooDeeply, fun _ => .error .nestedTooDeeply⟩
  | depth + 1 => ⟨operand (level depth), sum (level depth)⟩

/-- The most levels that may lie below the outermost one. -/
def maxDepth : Nat := 256

/-- The most tokens an expression may have. -/
def maxTokens : Nat := 1024

def parse (tokens : List Token) : Except SyntaxFault Tree :=
  if tokens.isEmpty then .error .emptyExpression
  else if maxTokens < tokens.length then .error (.tooLong tokens.length)
  else
    match (level (maxDepth + 1)).sum tokens with
    | .error fault => .error fault
    | .ok p =>
      match p.rest with
      | [] => .ok p.tree
      | .closeParen :: _ => .error .unmatchedClose
      | token :: _ => .error (.afterExpression token)

namespace SyntaxFault

def message : SyntaxFault → String
  | emptyExpression => "empty expression"
  | tooLong count =>
    "expression too long (" ++ count.repr ++ " tokens, at most " ++ maxTokens.repr ++ ")"
  | unmatchedClose => "unmatched ')'"
  | afterExpression token => "unexpected '" ++ token.describe ++ "' after complete expression"
  | unexpected token => "unexpected '" ++ token.describe ++ "'"
  | unexpectedEnd => "unexpected end of expression"
  | missingArgument f => "'" ++ f.name ++ "' must be followed by '('"
  | emptyParentheses => "empty parentheses"
  | expectedClose token => "expected ')' but found '" ++ token.describe ++ "'"
  | missingClose => "missing ')'"
  | nestedTooDeeply => "expression nested too deeply"

end SyntaxFault

end PocketCalculator.Calculation

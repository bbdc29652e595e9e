import PocketCalculator.Text.Blank

namespace PocketCalculator.Settings.Yaml

def isAllowed (c : Char) : Bool :=
  let n := c.toNat
  n == 0x09 || n == 0x0A || n == 0x0D || (0x20 ≤ n && n ≤ 0x7E) || n == 0x85 ||
    (0xA0 ≤ n && n ≤ 0xFFFD) || 0x10000 ≤ n

/-- The text with a line feed for each of the common line breaks. -/
def plainLines : List Char → List Char
  | '\r' :: '\n' :: rest => '\n' :: plainLines rest
  | c :: rest => (if c = '\r' ∨ c = '\x85' then '\n' else c) :: plainLines rest
  | [] => []

/-- The line feed, and the separators of lines and of paragraphs. -/
def isBreak (c : Char) : Bool := c == '\n' || c == '\u2028' || c == '\u2029'

def isGap (c : Char) : Bool := Text.isSpaceOrTab c || isBreak c

/-- Whether a text starts with a blank or a line break, or ends at once. -/
def startsGap (cs : List Char) : Bool := (cs.head?.map isGap).getD true

/-- Whether a text starts with three equal marks that stand alone. -/
def startsMark (mark : Char) : List Char → Bool
  | a :: b :: c :: rest => a == mark && b == mark && c == mark && startsGap rest
  | _ => false

/-- Whether a line starts or ends a document. -/
def isBoundary (line : List Char) : Bool := startsMark '-' line || startsMark '.' line

/-- Some blanks and line breaks inside of a scalar, as they count. One line break is a blank, and
of more than one the first does not count. -/
def folded (gap : List Char) : List Char :=
  match gap.filter isBreak with
  | [] => gap
  | ['\n'] => [' ']
  | '\n' :: more => more
  | breaks => breaks

/-- A place in a text. It is fresh if nothing but blanks stands before it on its line. -/
structure Cursor where
  column : Nat
  fresh : Bool
  rest : List Char
deriving DecidableEq, Repr

namespace Cursor

/-- The place after some characters, with the rest yet to be set. -/
def pass (cursor : Cursor) : List Char → Cursor
  | [] => cursor
  | c :: cs =>
    if isBreak c then pass ⟨0, true, []⟩ cs
    else pass ⟨cursor.column + 1, cursor.fresh && Text.isSpaceOrTab c, []⟩ cs

/-- The place at which a suffix of the rest starts. -/
def moveTo (cursor : Cursor) (rest : List Char) : Cursor :=
  { cursor.pass (cursor.rest.take (cursor.rest.length - rest.length)) with rest }

def onOneLine (start stop : Cursor) : Bool :=
  stop.column = start.column + (start.rest.length - stop.rest.length)

/-- Whether nothing more belongs to the document. -/
def atEnd (cursor : Cursor) : Bool :=
  cursor.rest.isEmpty || (cursor.fresh && cursor.column = 0 && isBoundary cursor.rest)

/-- Skips blanks, line breaks and comments. Tabs count as blanks between brackets, or where no key
can start. -/
def skipGap (flow : Bool) : Bool → Bool → Nat → Bool → List Char → Cursor
  | _, _, column, fresh, [] => ⟨column, fresh, []⟩
  | tabs, inComment, column, fresh, c :: rest =>
    if isBreak c then skipGap flow flow false 0 true rest
    else if inComment then skipGap flow tabs true (column + 1) fresh rest
    else if c = ' ' ∨ (c = '\t' ∧ tabs) then skipGap flow tabs false (column + 1) fresh rest
    else if c = '#' then skipGap flow tabs true (column + 1) fresh rest
    else ⟨column, fresh, c :: rest⟩

def toContent (flow tabs : Bool) (cursor : Cursor) : Cursor :=
  skipGap flow tabs false cursor.column cursor.fresh cursor.rest

end Cursor

end PocketCalculator.Settings.Yaml

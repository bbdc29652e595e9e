import PocketCalculator.Settings.Yaml.Node
import PocketCalculator.Settings.Yaml.Style

namespace PocketCalculator.Settings.Yaml

/-- Whether nothing but blanks, comments and the end of a document is left. -/
def isOver (cursor : Cursor) : Bool :=
  let cursor := cursor.toContent false false
  cursor.rest.isEmpty ||
    (cursor.atEnd && startsMark '.' cursor.rest &&
      ((Cursor.mk 3 false (cursor.rest.drop 3)).toContent false true).rest.isEmpty)

/-- The node of a document whose content starts somewhere. A document without any is an empty
table. -/
def document? (block : Bool) (cursor : Cursor) : Option Value :=
  if isOver cursor then some (.table [])
  else
    match wholeNode? (3 * cursor.rest.length + 4) block 0 cursor with
    | some (v, next) => if isOver next then some v else none
    | none => none

/-- The table that a whole text is. The text holds a single document. -/
def read (text : String) : Option Value :=
  let cs :=
    match plainLines text.toList with
    | '\uFEFF' :: rest => rest
    | cs => cs
  let start := (Cursor.mk 0 true cs).toContent false false
  let root :=
    if !cs.all isAllowed then none
    else if start.atEnd && startsMark '-' start.rest then
      let next := (Cursor.mk 3 false (start.rest.drop 3)).toContent false true
      document? next.fresh next
    else document? true start
  match root with
  | some (.table entries) => some (.table entries)
  | _ => none

def scalarLine (indent : Nat) : Scalar → List Char
  | .text s => written indent s
  | .truth b => (if b then "true\n" else "false\n").toList
  | .integer n => n.repr.toList ++ ['\n']
  | .empty => "null\n".toList

def entryLine (indent : Nat) (entry : String × Scalar) : List Char :=
  List.replicate indent ' ' ++ entry.1.toList ++ ':' :: ' ' :: scalarLine (indent + 2) entry.2

def write (document : Document) : String :=
  String.ofList
    (document.entries.flatMap (entryLine 0) ++ document.name.toList ++
      ':' :: '\n' :: document.members.flatMap (entryLine 2))

end PocketCalculator.Settings.Yaml

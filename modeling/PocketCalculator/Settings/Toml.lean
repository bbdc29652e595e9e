import PocketCalculator.Settings.Toml.Bare
import PocketCalculator.Settings.Toml.Draft
import PocketCalculator.Settings.Toml.Quoted

namespace PocketCalculator.Settings.Toml

/-- The text with every line ended by a line feed alone. -/
def plainLines : List Char → List Char
  | '\r' :: '\n' :: rest => '\n' :: plainLines rest
  | c :: rest => c :: plainLines rest
  | [] => []

def skipBlanks (cs : List Char) : List Char := cs.dropWhile Text.isSpaceOrTab

def skipGap : Bool → List Char → List Char
  | _, [] => []
  | inComment, c :: rest =>
    if c = '\n' then skipGap false rest
    else if inComment then (if isPlain c then skipGap true rest else c :: rest)
    else if c = '#' then skipGap true rest
    else if Text.isSpaceOrTab c then skipGap false rest
    else c :: rest

/-- What follows the end of a line, which may have a comment. -/
def afterLine? (cs : List Char) : Option (List Char) :=
  let rest :=
    match skipBlanks cs with
    | '#' :: comment => comment.dropWhile isPlain
    | rest => rest
  match rest with
  | [] => some []
  | '\n' :: rest => some rest
  | _ => none

/-- One part of a key: a run of key characters or a string on one line. -/
def keyPart? (cs : List Char) : Option (String × List Char) :=
  let bare := cs.takeWhile isKeyChar
  if bare.isEmpty then (shortString? cs).map fun (s, rest) => (String.ofList s, rest)
  else some (String.ofList bare, cs.dropWhile isKeyChar)

/-- A key with its parts, and what follows it and blanks. -/
def keyPath? : Nat → List Char → Option (List String × List Char)
  | 0, _ => none
  | fuel + 1, cs =>
    match keyPart? (skipBlanks cs) with
    | none => none
    | some (part, rest) =>
      match skipBlanks rest with
      | '.' :: rest => (keyPath? fuel rest).map fun (parts, rest) => (part :: parts, rest)
      | rest => some ([part], rest)

/-- The characters of a value without quotes. A blank may stand between a date and a time. -/
def bareRun (cs : List Char) : List Char :=
  let run := cs.takeWhile isBare
  match cs.dropWhile isBare with
  | ' ' :: rest =>
    if afterDate? run = some [] ∧ (afterTime? rest).isSome then run ++ ' ' :: rest.takeWhile isBare
    else run
  | _ => run

mutual

def value? : Nat → Nat → List Char → Option (Value × List Char)
  | 0, _, _ => none
  | fuel + 1, depth, cs =>
    match cs with
    | '[' :: rest =>
      if depth = 0 then none
      else (items? fuel (depth - 1) rest).map fun (vs, rest) => (.list vs, rest)
    | '{' :: rest =>
      if depth = 0 then none
      else
        match skipBlanks rest with
        | '}' :: rest => some (.table [], rest)
        | rest =>
          (members? fuel (depth - 1) [] rest).map fun (entries, rest) =>
            (.table (Node.entriesValue entries), rest)
    | cs =>
      if cs.head? = some '"' ∨ cs.head? = some '\'' then
        (string? cs).map fun (s, rest) => (.scalar (.text (String.ofList s)), rest)
      else
        let run := bareRun cs
        (bareValue? run).map fun v => (v, cs.drop run.length)

def items? : Nat → Nat → List Char → Option (List Value × List Char)
  | 0, _, _ => none
  | fuel + 1, depth, cs =>
    match skipGap false cs with
    | ']' :: rest => some ([], rest)
    | cs =>
      match value? fuel depth cs with
      | none => none
      | some (v, rest) =>
        match skipGap false rest with
        | ',' :: rest => (items? fuel depth rest).map fun (vs, rest) => (v :: vs, rest)
        | ']' :: rest => some ([v], rest)
        | _ => none

/-- The entries of a table in braces up to its closing brace, put to the entries read so far. -/
def members? : Nat → Nat → Entries → List Char → Option (Entries × List Char)
  | 0, _, _, _ => none
  | fuel + 1, depth, entries, cs =>
    match keyPath? cs.length cs with
    | some (path, '=' :: rest) =>
      match value? fuel depth (skipBlanks rest) with
      | none => none
      | some (v, rest) =>
        match entries.add path v .header with
        | none => none
        | some entries =>
          match skipBlanks rest with
          | ',' :: rest => members? fuel depth entries rest
          | '}' :: rest => some (entries, rest)
          | _ => none
    | _ => none

end

def maxDepth : Nat := 79

/-- A line other than a header: a key, an equals sign and a value. -/
def entry? (cs : List Char) : Option (List String × Value × List Char) :=
  match keyPath? cs.length cs with
  | some (path, '=' :: rest) =>
    (value? (rest.length + 1) maxDepth (skipBlanks rest)).map fun (v, rest) => (path, v, rest)
  | _ => none

def readLines : Nat → Draft → List Char → Option Draft
  | 0, _, _ => none
  | fuel + 1, draft, cs =>
    match skipGap false cs with
    | [] => some draft
    | '[' :: '[' :: rest =>
      match keyPath? rest.length rest with
      | some (path, ']' :: ']' :: rest) =>
        match draft.openNextTable path, afterLine? rest with
        | some draft, some rest => readLines fuel draft rest
        | _, _ => none
      | _ => none
    | '[' :: rest =>
      match keyPath? rest.length rest with
      | some (path, ']' :: rest) =>
        match draft.openTable path, afterLine? rest with
        | some draft, some rest => readLines fuel draft rest
        | _, _ => none
      | _ => none
    | cs =>
      match entry? cs with
      | some (path, v, rest) =>
        match draft.add path v, afterLine? rest with
        | some draft, some rest => readLines fuel draft rest
        | _, _ => none
      | none => none

/-- The table that a whole text is. A byte order mark at its start does not count. -/
def read (text : String) : Option Value :=
  let cs :=
    match plainLines text.toList with
    | '\uFEFF' :: rest => rest
    | cs => cs
  (readLines (cs.length + 1) ⟨[], []⟩ cs).map Draft.toValue

/-- A scalar as it is written. There are no whole numbers past 63 bits, and an empty scalar is not
written at all. -/
def scalarText? : Scalar → Option (List Char)
  | .text s => some (quoted s)
  | .truth b => some (if b then "true" else "false").toList
  | .integer n =>
    if -Int.pow 2 63 ≤ n ∧ n < Int.pow 2 63 then some n.repr.toList else none
  | .empty => some []

def entryLines? : List (String × Scalar) → Option (List Char)
  | [] => some []
  | (_, .empty) :: rest => entryLines? rest
  | (key, s) :: rest =>
    match scalarText? s, entryLines? rest with
    | some text, some rest => some (key.toList ++ " = ".toList ++ text ++ '\n' :: rest)
    | _, _ => none

/-- The text of a document, unless a number in it is too large. -/
def write? (document : Document) : Option String :=
  match entryLines? document.entries, entryLines? document.members with
  | some entries, some members =>
    some (String.ofList
      (entries ++ '\n' :: '[' :: (document.name.toList ++ ']' :: '\n' :: members)))
  | _, _ => none

end PocketCalculator.Settings.Toml

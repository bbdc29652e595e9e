import PocketCalculator.Settings.Yaml.Scalar

/-!
Reading YAML nodes. Indents say how blocks lie inside each other; between brackets they do not
count. Anchors, tags and keys that are not scalars are not read.
-/

namespace PocketCalculator.Settings.Yaml

def maxKeyLength : Nat := 1024

/-- A key of a block, which stands on one line before a colon and a blank. -/
def key? (cursor : Cursor) : Option (String × Cursor) :=
  match scalar? false 0 cursor with
  | none => none
  | some (text, _, next) =>
    if cursor.onOneLine next && cursor.rest.length - next.rest.length ≤ maxKeyLength then
      let next := next.moveTo (next.rest.dropWhile Text.isSpaceOrTab)
      match next.rest with
      | ':' :: rest =>
        if startsGap rest then some (String.ofList text, ⟨next.column + 1, false, rest⟩) else none
      | _ => none
    else none

def afterMark (cursor : Cursor) (rest : List Char) : Cursor :=
  (Cursor.mk (cursor.column + 1) false rest).toContent true true

def startsItem (cursor : Cursor) : Bool :=
  match cursor.rest with
  | '-' :: rest => startsGap rest
  | _ => false

mutual

/-- A node between brackets. The text of a scalar comes with it, since it may be a key. -/
def flowNode? : Nat → Cursor → Option (Option String × Value × Cursor)
  | 0, _ => none
  | fuel + 1, cursor =>
    match cursor.rest with
    | '[' :: rest =>
      (flowItems? fuel (afterMark cursor rest)).map fun (vs, next) => (none, .list vs, next)
    | '{' :: rest =>
      (flowMembers? fuel [] (afterMark cursor rest)).map fun (entries, next) =>
        (none, .table entries, next)
    | _ =>
      (scalar? true 0 cursor).map fun (text, v, next) =>
        (some (String.ofList text), v, next.toContent true true)

/-- The value after a colon between brackets, which may be missing. -/
def flowValue? : Nat → Cursor → Option (Value × Cursor)
  | 0, _ => none
  | fuel + 1, cursor =>
    match cursor.rest with
    | ',' :: _ => some (.scalar .empty, cursor)
    | ']' :: _ => some (.scalar .empty, cursor)
    | '}' :: _ => some (.scalar .empty, cursor)
    | _ => (flowNode? fuel cursor).map fun (_, v, next) => (v, next)

/-- The items of a list up to its closing bracket. A key and a value alone are a table. -/
def flowItems? : Nat → Cursor → Option (List Value × Cursor)
  | 0, _ => none
  | fuel + 1, cursor =>
    match cursor.rest with
    | ']' :: rest => some ([], afterMark cursor rest)
    | _ =>
      match flowNode? fuel cursor with
      | none => none
      | some (key, v, next) =>
        let item : Option (Value × Cursor) :=
          match key, next.rest with
          | some key, ':' :: rest =>
            (flowValue? fuel (afterMark next rest)).map fun (v, next) => (.table [(key, v)], next)
          | _, _ => some (v, next)
        match item with
        | none => none
        | some (v, next) =>
          match next.rest with
          | ',' :: rest =>
            (flowItems? fuel (afterMark next rest)).map fun (vs, next) => (v :: vs, next)
          | ']' :: rest => some ([v], afterMark next rest)
          | _ => none

/-- The entries of a table up to its closing brace, put into the entries read so far. -/
def flowMembers? : Nat → Table → Cursor → Option (Table × Cursor)
  | 0, _, _ => none
  | fuel + 1, entries, cursor =>
    match cursor.rest with
    | '}' :: rest => some (entries, afterMark cursor rest)
    | _ =>
      match flowNode? fuel cursor with
      | some (some key, _, next) =>
        let member : Option (Value × Cursor) :=
          match next.rest with
          | ':' :: rest => flowValue? fuel (afterMark next rest)
          | _ => some (.scalar .empty, next)
        match member with
        | none => none
        | some (v, next) =>
          let entries := Table.put key v entries
          match next.rest with
          | ',' :: rest => flowMembers? fuel entries (afterMark next rest)
          | '}' :: rest => some (entries, afterMark next rest)
          | _ => none
      | _ => none

end

mutual

/-- A node whose lines are indented by at least `indent` columns. Lists and tables of a block start
only where `block` says so, which is not on the line of a key. -/
def node? : Nat → Bool → Nat → Cursor → Option (Value × Cursor)
  | 0, _, _, _ => none
  | fuel + 1, block, indent, cursor =>
    if block && startsItem cursor then
      (items? fuel cursor.column cursor).map fun (vs, next) => (.list vs, next)
    else if block && (key? cursor).isSome then
      (members? fuel cursor.column [] cursor).map fun (entries, next) => (.table entries, next)
    else
      let found : Option (Value × Cursor) :=
        match cursor.rest with
        | '|' :: rest =>
          (block? false indent rest).map fun (s, next) => (.scalar (.text (String.ofList s)), next)
        | '>' :: rest =>
          (block? true indent rest).map fun (s, next) => (.scalar (.text (String.ofList s)), next)
        | '[' :: _ => (flowNode? fuel cursor).map fun (_, v, next) => (v, next)
        | '{' :: _ => (flowNode? fuel cursor).map fun (_, v, next) => (v, next)
        | _ => (scalar? false indent cursor).map fun (_, v, next) => (v, next)
      found.map fun (v, next) => (v, next.toContent false (!next.fresh))

/-- A node that ends where a line starts, perhaps the last one. -/
def wholeNode? : Nat → Bool → Nat → Cursor → Option (Value × Cursor)
  | 0, _, _, _ => none
  | fuel + 1, block, indent, cursor =>
    match node? fuel block indent cursor with
    | some (v, next) => if next.fresh || next.atEnd then some (v, next) else none
    | none => none

/-- The items of a list whose dashes stand in a column. An item may be empty. -/
def items? : Nat → Nat → Cursor → Option (List Value × Cursor)
  | 0, _, _ => none
  | fuel + 1, column, cursor =>
    let start := (Cursor.mk (column + 1) false (cursor.rest.drop 1)).toContent false false
    let item : Option (Value × Cursor) :=
      if start.atEnd || (start.fresh && start.column ≤ column) then
        some (.scalar .empty, start)
      else wholeNode? fuel true (column + 1) start
    match item with
    | none => none
    | some (v, next) =>
      if next.atEnd || next.column < column then some ([v], next)
      else if next.column = column then
        if startsItem next then
          (items? fuel column next).map fun (vs, next) => (v :: vs, next)
        else some ([v], next)
      else none

/-- The entries of a table whose keys stand in a column, put into the entries read so far. A list
may start in the column of its key. -/
def members? : Nat → Nat → Table → Cursor → Option (Table × Cursor)
  | 0, _, _, _ => none
  | fuel + 1, column, entries, cursor =>
    match key? cursor with
    | none => none
    | some (key, afterKey) =>
      let start := afterKey.toContent false true
      let member : Option (Value × Cursor) :=
        if start.atEnd || (start.fresh && start.column < column) then
          some (.scalar .empty, start)
        else if start.fresh && start.column = column then
          if startsItem start then
            (items? fuel column start).map fun (vs, next) => (.list vs, next)
          else some (.scalar .empty, start)
        else wholeNode? fuel start.fresh (column + 1) start
      match member with
      | none => none
      | some (v, next) =>
        let entries := Table.put key v entries
        if next.atEnd || next.column < column then some (entries, next)
        else if next.column = column then members? fuel column entries next
        else none

end

end PocketCalculator.Settings.Yaml

import PocketCalculator.Settings.Value

/-!
A TOML document while it is read. Each table remembers how it came into being, since a table may
be defined only once.
-/

namespace PocketCalculator.Settings.Toml

/-- How a table came into being: by a header of its own, only as part of a longer header, or as
part of a dotted key. -/
inductive Origin where
  | header
  | outline
  | dotted
deriving DecidableEq, Repr

inductive Node where
  | leaf (value : Value)
  | table (origin : Origin) (entries : List (String × Node))
  | tables (earlier : List (List (String × Node))) (last : List (String × Node))
deriving Repr

abbrev Entries := List (String × Node)

namespace Node

mutual

def toValue : Node → Value
  | leaf value => value
  | table _ entries => .table (entriesValue entries)
  | tables earlier last => .list (tablesValue earlier ++ [.table (entriesValue last)])

def entriesValue : List (String × Node) → List (String × Value)
  | [] => []
  | entry :: rest => entryValue entry :: entriesValue rest

def entryValue : String × Node → String × Value
  | (key, node) => (key, toValue node)

def tablesValue : List (List (String × Node)) → List Value
  | [] => []
  | entries :: rest => .table (entriesValue entries) :: tablesValue rest

end

end Node

namespace Entries

def get? (entries : Entries) (key : String) : Option Node :=
  (entries.find? (·.1 == key)).map (·.2)

/-- Replaces the node of a key, or adds the key at the end. -/
def put (key : String) (node : Node) : Entries → Entries
  | [] => [(key, node)]
  | (k, n) :: rest => if k = key then (k, node) :: rest else (k, n) :: put key node rest

/-- Changes the table at the end of a path. Tables that are not there yet are made on the way, and
of several tables with one name the last is meant. A dotted key does not go through a table with a
header of its own. -/
def change (dotted : Bool) (f : Origin → Entries → Option Entries) :
    List String → Origin → Entries → Option Entries
  | [], origin, entries => f origin entries
  | key :: path, _, entries =>
    match get? entries key with
    | none =>
      let origin := if dotted then Origin.dotted else .outline
      (change dotted f path origin []).map fun inner => put key (.table origin inner) entries
    | some (.leaf _) => none
    | some (.table origin inner) =>
      if dotted ∧ origin = .header then none
      else (change dotted f path origin inner).map fun inner =>
        put key (.table origin inner) entries
    | some (.tables earlier last) =>
      (change dotted f path .header last).map fun last => put key (.tables earlier last) entries

/-- Adds an entry with a key that may be dotted. A dotted key ends in a table made by dotted
keys. -/
def add (path : List String) (value : Value) (origin : Origin) (entries : Entries) :
    Option Entries :=
  match path.getLast? with
  | none => none
  | some key =>
    let before := path.dropLast
    let insert (origin : Origin) (inner : Entries) : Option Entries :=
      if (!before.isEmpty && origin ≠ .dotted) || (get? inner key).isSome then none
      else some (put key (.leaf value) inner)
    change true insert before origin entries

def addTable (path : List String) (entries : Entries) : Option Entries :=
  match path.getLast? with
  | none => none
  | some key =>
    let define (_ : Origin) (inner : Entries) : Option Entries :=
      match get? inner key with
      | none => some (put key (.table .header []) inner)
      | some (.table .outline old) => some (put key (.table .header old) inner)
      | some _ => none
    change false define path.dropLast .header entries

def addToTables (path : List String) (entries : Entries) : Option Entries :=
  match path.getLast? with
  | none => none
  | some key =>
    let define (_ : Origin) (inner : Entries) : Option Entries :=
      match get? inner key with
      | none => some (put key (.tables [] []) inner)
      | some (.tables earlier last) => some (put key (.tables (earlier ++ [last]) []) inner)
      | some _ => none
    change false define path.dropLast .header entries

end Entries

/-- The entries read so far, and the path of the table that is open. -/
structure Draft where
  root : Entries
  place : List String

namespace Draft

def add (draft : Draft) (path : List String) (value : Value) : Option Draft :=
  (Entries.change false (Entries.add path value) draft.place .header draft.root).map fun root =>
    { draft with root }

def openTable (draft : Draft) (path : List String) : Option Draft :=
  (draft.root.addTable path).map fun root => ⟨root, path⟩

def openNextTable (draft : Draft) (path : List String) : Option Draft :=
  (draft.root.addToTables path).map fun root => ⟨root, path⟩

def toValue (draft : Draft) : Value := .table (Node.entriesValue draft.root)

end Draft

end PocketCalculator.Settings.Toml

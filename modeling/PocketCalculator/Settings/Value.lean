import PocketCalculator.Settings.Basic

/-!
Settings as trees of values. Files and the environment are read into such trees, layers of trees
are laid over each other, and the last tree is decoded into settings.
-/

namespace PocketCalculator.Settings

inductive Scalar where
  | text (s : String)
  | truth (b : Bool)
  | integer (n : Int)
  | empty
deriving DecidableEq, Repr, Inhabited

/-- A number that is not whole is kept as it was written, since no setting takes one. -/
inductive Value where
  | scalar (s : Scalar)
  | fraction (written : String)
  | list (items : List Value)
  | table (entries : List (String × Value))
deriving Repr, Inhabited

abbrev Table := List (String × Value)

/-- The characters of a key without quotes. -/
def isKeyChar (c : Char) : Bool := c.isAlphanum || c == '_' || c == '-'

namespace Table

def get? (entries : Table) (key : String) : Option Value :=
  (entries.find? (·.1 == key)).map (·.2)

/-- Replaces the value of a key, or adds the key at the end. -/
def put (key : String) (value : Value) : Table → Table
  | [] => [(key, value)]
  | (k, v) :: rest => if k = key then (k, value) :: rest else (k, v) :: put key value rest

end Table

namespace Value

mutual

/-- The upper value laid over the lower one. Tables are joined key by key, and anything else is
replaced as a whole. -/
def overlay (lower : Value) : Value → Value
  | .table upper =>
    match lower with
    | .table entries => .table (overlayEntries entries upper)
    | _ => .table upper
  | upper => upper

def overlayEntries (lower : Table) : Table → Table
  | [] => lower
  | entry :: rest => overlayEntries (overlayEntry lower entry) rest

def overlayEntry (lower : Table) : String × Value → Table
  | (key, value) =>
    match Table.get? lower key with
    | some old => Table.put key (overlay old value) lower
    | none => Table.put key value lower

end

def asTruth? : Value → Option Bool
  | .scalar (.truth b) => some b
  | _ => none

def asText? : Value → Option String
  | .scalar (.text s) => some s
  | _ => none

def asCount? : Value → Option Nat
  | .scalar (.integer (.ofNat n)) => if n < Nat.pow 2 64 then some n else none
  | _ => none

def asOptionalText? : Value → Option (Option String)
  | .scalar .empty => some none
  | .scalar (.text s) => some (some s)
  | _ => none

/-- One of several choices, by its name. The name may also be the one key of a table, with
nothing behind it. -/
def asChoice? {α : Type} (choices : List α) (name : α → String) : Value → Option α
  | .scalar (.text s) => choices.find? (name · == s)
  | .table [(key, .scalar .empty)] => choices.find? (name · == key)
  | _ => none

/-- The fields of a record, which is a table or a list of the first fields in order. -/
def asFields? (names : List String) : Value → Option Table
  | .table entries => some entries
  | .list items => some (names.zip items)
  | _ => none

end Value

namespace Table

/-- The decoded value of a key, or a default if the key is not there. -/
def field? {α : Type} (entries : Table) (key : String) (default : α)
    (decode : Value → Option α) : Option α :=
  match entries.get? key with
  | some value => decode value
  | none => some default

end Table

namespace LogSettings

def keys : List String := ["level", "console", "file", "format", "ansi"]

def ofValue? (value : Value) : Option LogSettings := do
  let entries ← value.asFields? keys
  let default : LogSettings := {}
  some
    { level := ← entries.field? "level" default.level Value.asText?
      console := ← entries.field? "console" default.console Value.asTruth?
      file := ← entries.field? "file" default.file Value.asOptionalText?
      format := ← entries.field? "format" default.format
        (Value.asChoice? LogFormat.all LogFormat.name)
      ansi := ← entries.field? "ansi" default.ansi Value.asTruth? }

/-- The log settings, key by key in the order in which they are written. -/
def scalars (log : LogSettings) : List (String × Scalar) :=
  [("level", .text log.level), ("console", .truth log.console),
    ("file", (log.file.map Scalar.text).getD .empty), ("format", .text log.format.name),
    ("ansi", .truth log.ansi)]

end LogSettings

def keys : List String :=
  ["history_capacity", "scientific", "angle_unit", "language", "default_category", "log"]

/-- The settings in a tree. Keys that are not there have their defaults, and keys that are not
settings are ignored. -/
def ofValue? (value : Value) : Option Settings := do
  let entries ← value.asFields? keys
  let default : Settings := {}
  some
    { historyCapacity :=
        ← entries.field? "history_capacity" default.historyCapacity Value.asCount?
      scientific := ← entries.field? "scientific" default.scientific Value.asTruth?
      angleUnit := ← entries.field? "angle_unit" default.angleUnit
        (Value.asChoice? [.radians, .degrees] Calculation.AngleUnit.name)
      language := ← entries.field? "language" default.language
        (Value.asChoice? Locale.Language.all Locale.Language.code)
      defaultCategory := ← entries.field? "default_category" default.defaultCategory
        (Value.asChoice? Measure.Category.all Measure.Category.name)
      log := ← entries.field? "log" default.log LogSettings.ofValue? }

/-- The settings outside of the log section, in the order in which they are written. -/
def scalars (settings : Settings) : List (String × Scalar) :=
  [("history_capacity", .integer settings.historyCapacity),
    ("scientific", .truth settings.scientific), ("angle_unit", .text settings.angleUnit.name),
    ("language", .text settings.language.code),
    ("default_category", .text settings.defaultCategory.name)]

/-- Some entries, and then a section with entries of its own. Every file format writes such a
document. -/
structure Document where
  entries : List (String × Scalar)
  name : String
  members : List (String × Scalar)
deriving DecidableEq, Repr

def document (settings : Settings) : Document :=
  ⟨settings.scalars, "log", settings.log.scalars⟩

namespace Document

def toValue (document : Document) : Value :=
  .table
    (document.entries.map (fun (key, s) => (key, .scalar s)) ++
      [(document.name, .table (document.members.map fun (key, s) => (key, .scalar s)))])

end Document

end PocketCalculator.Settings

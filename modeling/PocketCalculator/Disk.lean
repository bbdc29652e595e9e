/-!
Files and folders as a program sees them from its working folder. A place is the list of names on
the way to it; `..` at its start leads out of the working folder, and `/` starts at the root.
-/

namespace PocketCalculator

structure Disk where
  files : List (List String × String)
  folders : List (List String)
deriving DecidableEq, Repr

namespace Disk

/-- A written path: where it starts, its steps, and whether only a folder can be meant. -/
structure Path where
  start : List String
  steps : List String
  folderOnly : Bool
deriving DecidableEq, Repr

/-- The names between the slashes of a text, some of which may be empty. -/
def splitNames : List Char → List (List Char)
  | [] => [[]]
  | c :: rest =>
    if c = '/' then [] :: splitNames rest
    else
      match splitNames rest with
      | name :: names => (c :: name) :: names
      | [] => [[c]]

namespace Path

/-- The path that a text names. Empty names and single points do not count, but at its end they
say that the path is a folder. -/
def ofText (text : String) : Path :=
  let names := splitNames text.toList
  let last := names.getLast?.getD []
  { start := if text.toList.head? = some '/' then ["/"] else []
    steps := (names.filter fun name => name ≠ [] ∧ name ≠ ['.']).map String.ofList
    folderOnly := last = [] || last = ['.'] || last = ['.', '.'] }

def parent (path : Path) : Path := { path with steps := path.steps.dropLast, folderOnly := true }

/-- What follows the last point of the last name. A name that only starts with a point has no
extension. -/
def extension? (path : Path) : Option String :=
  match path.steps.getLast? with
  | none => none
  | some name =>
    let cs := name.toList
    let ending := (cs.reverse.takeWhile (· ≠ '.')).reverse
    if name = ".." ∨ cs.length ≤ ending.length + 1 then none else some (String.ofList ending)

end Path

def isFile (disk : Disk) (place : List String) : Bool := disk.files.any (·.1 == place)

/-- A folder is known by itself or by something in it. The folders on the way out always exist. -/
def isFolder (disk : Disk) (place : List String) : Bool :=
  place.all (· == "..") || place == ["/"] || disk.folders.any (place.isPrefixOf ·) ||
    disk.files.any fun file => place.isPrefixOf file.1 && place ≠ file.1

def outside (place : List String) : List String :=
  if place = ["/"] then place
  else if place.all (· == "..") then ".." :: place
  else place.dropLast

def stepFrom (place : List String) (name : String) : List String :=
  if name = ".." then outside place else place ++ [name]

/-- Where some steps lead. Every step starts in a folder. -/
def follow (disk : Disk) : List String → List String → Option (List String)
  | place, [] => some place
  | place, name :: rest =>
    if disk.isFolder place then follow disk (stepFrom place name) rest else none

def place? (disk : Disk) (path : Path) : Option (List String) := disk.follow path.start path.steps

def has (disk : Disk) (path : Path) : Bool :=
  match disk.place? path with
  | none => false
  | some place => disk.isFolder place || (disk.isFile place && !path.folderOnly)

def text? (disk : Disk) (path : Path) : Option String :=
  match disk.place? path with
  | none => none
  | some place =>
    if path.folderOnly then none else (disk.files.find? (·.1 == place)).map (·.2)

/-- Makes the folders on some steps that are not there yet, and says whether the last step can be
reached. A file cannot become a folder; those made before it is met stay. -/
def makeFoldersFrom (disk : Disk) : List String → List String → Disk × Bool
  | _, [] => (disk, true)
  | place, name :: rest =>
    let next := stepFrom place name
    if disk.isFile next then (disk, false)
    else if disk.isFolder next then makeFoldersFrom disk next rest
    else makeFoldersFrom { disk with folders := disk.folders ++ [next] } next rest

def makeFolders (disk : Disk) (path : Path) : Disk × Bool :=
  disk.makeFoldersFrom path.start path.steps

/-- Replaces the text of the file at a place, or adds a file. -/
def putFile (place : List String) (text : String) :
    List (List String × String) → List (List String × String)
  | [] => [(place, text)]
  | file :: rest =>
    if file.1 = place then (place, text) :: rest else file :: putFile place text rest

def write (disk : Disk) (path : Path) (text : String) : Option Disk :=
  match disk.place? path with
  | none => none
  | some place =>
    if path.folderOnly || disk.isFolder place then none
    else some { disk with files := putFile place text disk.files }

def ofFiles (files : List (String × String)) : Disk :=
  { files := files.map fun (path, text) => ((Path.ofText path).steps, text), folders := [] }

end Disk

end PocketCalculator

import PocketCalculator.Shell.Program

/-!
The program in its real surroundings. What the program may read is looked up before each of its
steps, and what it has written is carried out afterwards.
-/

namespace PocketCalculator.Shell

def pathOf (place : List String) : String :=
  match place with
  | [] => "."
  | "/" :: names => "/" ++ String.intercalate "/" names
  | names => String.intercalate "/" names

def isThere (path : String) : IO Bool := do
  try
    discard (IO.FS.realPath path)
    return true
  catch _ => return false

/-- The text of a file. A file that cannot be read as text gets one that no format reads. -/
def readText (path : String) : IO String := do
  try IO.FS.readFile path
  catch _ => return "\x00"

/-- The disk with what is found on the way to a path. -/
def lookAlong (disk : Disk) (path : String) : IO Disk := do
  let written := Disk.Path.ofText path
  let mut disk := disk
  let mut place := written.start
  for name in written.steps do
    place := Disk.stepFrom place name
    if ← isThere (pathOf place ++ "/.") then
      disk := { disk with folders := disk.folders ++ [place] }
    else if ← isThere (pathOf place) then
      disk := { disk with files := Disk.putFile place (← readText (pathOf place)) disk.files }
  return disk

/-- Makes the folders and writes the files that are new. -/
def carryOut (before after : Disk) : IO Unit := do
  for place in after.folders do
    if !before.folders.contains place then IO.FS.createDirAll (pathOf place)
  for file in after.files do
    if !before.files.contains file then IO.FS.writeFile (pathOf file.1) file.2

def environment : IO (List (String × String)) := do
  let text ← readText "/proc/self/environ"
  return (text.splitOn "\x00").filterMap fun entry =>
    match entry.splitOn "=" with
    | name :: rest => if rest.isEmpty then none else some (name, String.intercalate "=" rest)
    | [] => none

/-- The seconds since the start of the epoch: the time at which the machine was started, and for
how long it has run. -/
def now : IO Nat := do
  let stat ← readText "/proc/stat"
  let uptime ← readText "/proc/uptime"
  let started :=
    (stat.splitOn "\n").findSome? fun line =>
      match line.splitOn " " with
      | ["btime", seconds] => seconds.toNat?
      | _ => none
  let running := (uptime.splitOn ".").head?.bind String.toNat?
  return started.getD 0 + running.getD 0

def print (printed : Printed) : IO Unit := do
  let output ← IO.getStdout
  output.putStr printed.output
  output.flush
  (← IO.getStderr).putStr printed.errors

/-- Reads lines until the input ends or a line leaves the console. -/
partial def converse (console : Console) : IO Unit := do
  print ⟨console.prompt, ""⟩
  let line ← (← IO.getStdin).getLine
  if line.isEmpty then print Console.farewell
  else
    let disk ←
      ((Text.words line.toList).drop 1).foldlM
        (fun disk word => lookAlong disk (String.ofList word)) console.disk
    let console := { console with disk }
    match console.step line (← now) with
    | (none, printed) => print printed
    | (some next, printed) =>
      try
        carryOut disk next.disk
        print printed
      catch error =>
        print (.errorLine (console.paint.apply Style.red "Error:" ++ " " ++ toString error))
      converse next

/-- The paths that the program reads before it does anything else. -/
def initialPaths (arguments : List String) : List String :=
  let shared := Settings.sharedPaths.map (·.1)
  match Request.ofArguments arguments with
  | .run invocation => shared ++ invocation.config.toList
  | _ => shared

def start (arguments : List String) : IO UInt32 := do
  let disk ← (initialPaths arguments).foldlM lookAlong ⟨[], []⟩
  let terminal ← (← IO.getStdout).isTty
  let (launched, after) := launch ⟨disk, ← environment, terminal⟩ arguments
  carryOut disk after
  match launched with
  | .finished report =>
    print report.printed
    return UInt32.ofNat report.code
  | .interactive console =>
    print console.banner
    converse console
    return 0

end PocketCalculator.Shell

def main (arguments : List String) : IO UInt32 := PocketCalculator.Shell.start arguments

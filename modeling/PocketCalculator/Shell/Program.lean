import PocketCalculator.Shell.Console
import PocketCalculator.Shell.Invocation
import PocketCalculator.Shell.OneShot

namespace PocketCalculator.Shell

structure Surroundings where
  disk : Disk
  environment : List (String × String)
  terminal : Bool
deriving DecidableEq, Repr

/-- A program that has done its work, or one that goes on to read lines. -/
inductive Launch where
  | finished (report : Report)
  | interactive (console : Console)

def version : String := "ganit 0.1.0"

def usage : String :=
  "Usage: ganit [OPTIONS] <COMMAND>\n\n" ++
    "Commands:\n" ++
    "  eval <EXPRESSION>            Evaluate a keypad expression\n" ++
    "  convert <VALUE> <FROM> <TO>  Convert a value between two units\n" ++
    "  units [CATEGORY]             List conversion categories and units\n" ++
    "  repl                         Interactive keypad\n\n" ++
    "Options:\n" ++
    "  -d, --degrees          Trigonometric functions take degrees (eval)\n" ++
    "  -v, --verbose          Enable verbose logging\n" ++
    "      --no-color         Disable colored output\n" ++
    "  -c, --config <CONFIG>  Configuration file (toml, yaml or json)\n" ++
    "  -l, --lang <LANG>      Display language\n" ++
    "  -h, --help             Print help\n" ++
    "  -V, --version          Print version\n"

namespace Invocation

/-- The settings of an invocation, from its file or from the shared ones. Options count before
both. -/
def settings (invocation : Invocation) (surroundings : Surroundings) : Except Report Settings :=
  let (loaded, message) :=
    match invocation.config with
    | some path =>
      (Settings.loadFile surroundings.disk surroundings.environment path,
        "Failed to load config from " ++ path)
    | none =>
      (Settings.load surroundings.disk surroundings.environment, "Failed to load configuration")
  match loaded with
  | .error fault => .error (.failureBy message fault.message)
  | .ok settings =>
    .ok
      { settings with
        language := invocation.language.getD settings.language
        log :=
          { settings.log with
            level := if invocation.verbose then "debug" else settings.log.level
            ansi := settings.log.ansi && !invocation.noColour } }

def paint (invocation : Invocation) (surroundings : Surroundings) : Paint :=
  if invocation.noColour then ⟨false⟩
  else Paint.ofEnvironment surroundings.environment surroundings.terminal

end Invocation

/-- The disk with the folder for the log file, which is made when the program starts. -/
def withLogFolder (settings : Settings) (disk : Disk) : Option Disk :=
  match settings.log.file with
  | some path =>
    match disk.makeFolders (Disk.Path.ofText path).parent with
    | (disk, true) => some disk
    | (_, false) => none
  | none => some disk

def Command.launch (command : Command) (settings : Settings) (disk : Disk) (paint : Paint) :
    Launch :=
  match command with
  | .eval expression degrees => .finished (evalReport settings paint expression degrees)
  | .convert value source target => .finished (convertReport settings paint value source target)
  | .units category => .finished (unitsReport settings paint category)
  | .console => .interactive (Console.start settings disk paint)

/-- Starts the program. The disk is what the start leaves of it. -/
def launch (surroundings : Surroundings) (arguments : List String) : Launch × Disk :=
  let disk := surroundings.disk
  match Request.ofArguments arguments with
  | .version => (.finished (.success (.line version)), disk)
  | .help => (.finished (.success ⟨usage, ""⟩), disk)
  | .misuse => (.finished (.misuse usage), disk)
  | .run invocation =>
    match invocation.settings surroundings with
    | .error report => (.finished report, disk)
    | .ok settings =>
      match withLogFolder settings disk with
      | none =>
        (.finished
          (.failureBy "Failed to initialize logging" Settings.Fault.fileSystem.message), disk)
      | some disk =>
        (invocation.command.launch settings disk (invocation.paint surroundings), disk)

/-- The lines of a text. What follows the last line feed is a line if it is not empty. -/
def linesOf : List Char → List (List Char)
  | [] => []
  | c :: rest =>
    if c = '\n' then [] :: linesOf rest
    else
      match linesOf rest with
      | line :: more => (c :: line) :: more
      | [] => [[c]]

/-- The whole run of the program on some input, and the disk that it leaves. -/
def run (surroundings : Surroundings) (arguments : List String) (input : String) (now : Nat) :
    Report × Disk :=
  match launch surroundings arguments with
  | (.finished report, disk) => (report, disk)
  | (.interactive console, _) =>
    let (disk, printed) := console.run now ((linesOf input.toList).map String.ofList)
    (.success (console.banner ++ printed), disk)

end PocketCalculator.Shell

import PocketCalculator.Keypad.Basic
import PocketCalculator.Keypad.Keys
import PocketCalculator.Locale.Digits
import PocketCalculator.Settings.Storage
import PocketCalculator.Shell.Report

/-!
The console: a keypad driven by lines of text. A line is a command if it starts with a colon;
otherwise its words are keys.
-/

namespace PocketCalculator.Shell

open PocketCalculator.Locale

structure Console where
  keypad : Keypad
  settings : Settings
  disk : Disk
  paint : Paint
deriving DecidableEq, Repr

namespace Console

def start (settings : Settings) (disk : Disk) (paint : Paint) : Console :=
  ⟨Keypad.start settings, settings, disk, paint⟩

def banner (console : Console) : Printed :=
  let labels := console.keypad.language.labels
  let paint := console.paint
  .lines
    [paint.apply Style.cyan.strong ("Ganit " ++ labels.calculator ++ " / " ++ labels.converter),
      "Type '" ++ paint.apply Style.yellow ":help" ++ "' for commands, " ++
        paint.apply Style.cyan "Tab" ++ " for completion",
      ""]

def farewell : Printed := .line "Bye!"

def prompt (console : Console) : String :=
  match console.keypad.tab with
  | .calculator => "calc> "
  | .converter => "conv> "

def display (console : Console) : Printed :=
  let paint := console.paint
  let language := console.keypad.language
  match console.keypad.tab with
  | .calculator =>
    let session := console.keypad.calculator
    let below : List String :=
      match session.mode with
      | .idle =>
        if session.preview = "" then []
        else ["  " ++ paint.apply Style.faint (localize language session.preview)]
      | .showingResult =>
        ["  = " ++ paint.apply Style.green.strong (localize language session.result)]
      | .showingError => ["  " ++ paint.apply Style.red.strong session.result]
    .lines (("  " ++ localize language session.expression) :: below)
  | .converter =>
    let session := console.keypad.converter
    let input := if session.input = "" then "0" else session.input
    .line
      ("  [" ++ paint.apply Style.yellow (language.labels.category session.category) ++ "] " ++
        localize language input ++ " " ++ paint.apply Style.cyan session.source.symbol ++ " = " ++
        paint.apply Style.green.strong (localize language session.result) ++ " " ++
        paint.apply Style.cyan session.target.symbol)

/-- A number with blanks before it up to a width of three. -/
def padIndex (n : Nat) : String :=
  let digits := n.repr
  String.ofList (List.replicate (3 - digits.length) ' ') ++ digits

def listing (console : Console) : Printed :=
  let paint := console.paint
  let language := console.keypad.language
  let entries := console.keypad.calculator.history.entries
  let title := paint.apply Style.cyan ("=== " ++ language.labels.history ++ " ===")
  let lines :=
    if entries.isEmpty then ["  (empty)"]
    else
      entries.zipIdx.map fun (entry, index) =>
        "  " ++ padIndex index ++ "  " ++ localize language entry.expression ++ " = " ++
          paint.apply Style.green (localize language entry.result) ++ "  " ++
          paint.apply Style.faint entry.clock
  .lines (title :: lines)

/-- The commands of the console, each with the blanks after it and what it does. -/
def commandHelp : List (String × String) :=
  [(":history", "              Show calculation history"),
    (":load <n>", "             Load history entry n into the calculator"),
    (":clear-history", "        Empty the history"),
    (":tab calc|conv", "     Switch tab"),
    (":category <c>", "         Select converter category"),
    (":units <from> <to>", "    Select converter units"),
    (":swap", "                 Swap converter units"),
    (":lang <code>", "          Display language"),
    (":save-config <path>", "  Save current settings (.toml/.yaml/.json)"),
    (":quit", "                 Exit")]

def help (console : Console) : Printed :=
  let paint := console.paint
  .lines
    ([paint.apply Style.cyan "=== Keys ===", "",
        "  " ++ String.intercalate " " Keypad.calculatorKeys,
        "  Keys may be typed together: 12×(3+4) =",
        "  ASCII * ** / pi sqrt( are accepted for × ^ ÷ π √(",
        "  Converter tab: " ++ String.intercalate " " Keypad.converterKeys, "",
        paint.apply Style.cyan "=== Commands ===", ""] ++
      (commandHelp.map fun (command, text) => "  " ++ paint.apply Style.yellow command ++ text) ++
      [""])

inductive Fault where
  | keypad (fault : Keypad.Fault)
  | loadUsage
  | notSaved (path : String) (fault : Settings.Fault)
deriving DecidableEq, Repr

namespace Fault

def message : Fault → String
  | keypad fault => fault.message
  | loadUsage => "Usage: :load <n>"
  | notSaved path _ => "Failed to save config to " ++ path

end Fault

/-- What became of a command: the console after it and what is printed, or a refusal. A refused
command may still have changed the console. -/
structure Outcome where
  console : Console
  result : Except Fault Printed

/-- An index of 64 bits, perhaps with a plus sign. -/
def index? (text : String) : Option Nat :=
  let digits :=
    match text.toList with
    | '+' :: rest => rest
    | cs => cs
  let n := Nat.ofDigitChars 10 digits 0
  if digits.isEmpty || !digits.all Char.isDigit || Nat.pow 2 64 ≤ n then none else some n

def withKeypad (console : Console) (keypad : Keypad) : Console := { console with keypad }

/-- A command that shows the display after it has changed the keypad. -/
def showing (console : Console) (keypad : Except Keypad.Fault Keypad) : Outcome :=
  match keypad with
  | .ok keypad =>
    let console := console.withKeypad keypad
    ⟨console, .ok console.display⟩
  | .error fault => ⟨console, .error (.keypad fault)⟩

/-- Loads a recorded result. The calculator comes to the front even if there is no such result. -/
def load (console : Console) (index : String) : Outcome :=
  match index? index with
  | none => ⟨console, .error .loadUsage⟩
  | some n =>
    let console := console.withKeypad (console.keypad.setTab .calculator)
    console.showing (console.keypad.loadIndex n)

/-- Saves the settings with the language and the category of the session, which they keep even if
they cannot be saved. -/
def saveSettings (console : Console) (path : String) : Outcome :=
  let settings : Settings :=
    { console.settings with
      language := console.keypad.language
      defaultCategory := console.keypad.converter.category }
  let (disk, saved) := settings.trySave console.disk path
  ⟨{ console with settings, disk },
    match saved with
    | .ok () => .ok (.line (console.paint.apply Style.green "Saved" ++ " " ++ path))
    | .error fault => .error (.notSaved path fault)⟩

/-- Carries out a command other than leaving. -/
def command (console : Console) (line : String) (words : List String) : Outcome :=
  let keypad := console.keypad
  let paint := console.paint
  match words with
  | [":history"] => ⟨console, .ok console.listing⟩
  | [":load", index] => console.load index
  | [":clear-history"] =>
    ⟨console.withKeypad (keypad.perform (.calculator .clearHistory)),
      .ok (.line (paint.apply Style.green "History cleared"))⟩
  | [":tab", name] => console.showing ((Keypad.parseTab name).map keypad.setTab)
  | [":category", name] =>
    console.showing ((Keypad.parseCategory name).map fun category =>
      (keypad.perform (.converter (.setCategory category))).setTab .converter)
  | [":units", source, target] =>
    console.showing ((keypad.selectUnits source target).map (·.setTab .converter))
  | [":swap"] => console.showing (.ok (keypad.perform (.converter .swapUnits)))
  | [":lang", code] =>
    match Keypad.parseLanguage code with
    | .ok language =>
      ⟨console.withKeypad (keypad.setLanguage language),
        .ok (.line (paint.apply Style.green language.nativeName))⟩
    | .error fault => ⟨console, .error (.keypad fault)⟩
  | [":save-config", path] => console.saveSettings path
  | [":help"] => ⟨console, .ok console.help⟩
  | _ =>
    ⟨console,
      .ok (.line
        ("Unknown command '" ++ paint.apply Style.red line ++ "'. Type '" ++
          paint.apply Style.yellow ":help" ++ "' for available commands."))⟩

def leaves (words : List String) : Bool := [[":quit"], [":q"], [":exit"]].contains words

def pressKeys (keypad : Keypad) (words : List (List Char)) (now : Nat) : Keypad :=
  (words.flatMap Keypad.splitKeys).foldl (fun keypad key => keypad.press key now) keypad

/-- The text in which every backspace has taken back the character before it. -/
def withoutBackspaces (cs : List Char) : List Char :=
  (cs.foldl (fun kept c => if c = '\x08' then kept.drop 1 else c :: kept) []).reverse

/-- What a line does: the console after it and what is printed, and no console if the line leaves
it. -/
def step (console : Console) (line : String) (now : Nat) : Option Console × Printed :=
  let typed := Text.trim (withoutBackspaces line.toList)
  let words := Text.words typed
  if typed.isEmpty then (some console, .nothing)
  else if typed.head? = some ':' then
    if leaves (words.map String.ofList) then (none, farewell)
    else
      let outcome := console.command (String.ofList typed) (words.map String.ofList)
      match outcome.result with
      | .ok printed => (some outcome.console, printed)
      | .error fault =>
        (some outcome.console,
          .errorLine (console.paint.apply Style.red "Error:" ++ " " ++ fault.message))
  else
    let console := console.withKeypad (pressKeys console.keypad words now)
    (some console, console.display)

/-- What the console prints for some lines, with a prompt before each of them and one before the
end of the lines, and the disk that it leaves. -/
def run (now : Nat) : Console → List String → Disk × Printed
  | console, [] => (console.disk, ⟨console.prompt, ""⟩ ++ farewell)
  | console, line :: rest =>
    match console.step line now with
    | (some next, printed) =>
      let (disk, more) := run now next rest
      (disk, ⟨console.prompt, ""⟩ ++ printed ++ more)
    | (none, printed) => (console.disk, ⟨console.prompt, ""⟩ ++ printed)

end Console

end PocketCalculator.Shell

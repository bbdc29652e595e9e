import PocketCalculator.Shell.Paint

namespace PocketCalculator.Shell

structure Printed where
  output : String
  errors : String
deriving DecidableEq, Repr, Inhabited

namespace Printed

def nothing : Printed := ⟨"", ""⟩

def line (text : String) : Printed := ⟨text ++ "\n", ""⟩

def errorLine (text : String) : Printed := ⟨"", text ++ "\n"⟩

def append (a b : Printed) : Printed := ⟨a.output ++ b.output, a.errors ++ b.errors⟩

instance : Append Printed := ⟨append⟩

def join (pieces : List Printed) : Printed := pieces.foldl append nothing

def lines (texts : List String) : Printed := join (texts.map line)

end Printed

/-- The end of a program: what it wrote last, and its exit code. -/
structure Report where
  printed : Printed
  code : Nat
deriving DecidableEq, Repr, Inhabited

namespace Report

def success (printed : Printed) : Report := ⟨printed, 0⟩

/-- The text with four blanks at the start of every line. -/
def indent (text : String) : String :=
  String.ofList
    ([' ', ' ', ' ', ' '] ++
      text.toList.flatMap fun c => if c = '\n' then ['\n', ' ', ' ', ' ', ' '] else [c])

def failure (message : String) : Report := ⟨Printed.errorLine ("Error: " ++ message), 1⟩

/-- A program stopped by an error that another one caused. -/
def failureBy (message cause : String) : Report :=
  failure (message ++ "\n\nCaused by:\n" ++ indent cause)

/-- The arguments of the program make no sense. -/
def misuse (usage : String) : Report := ⟨⟨"", usage⟩, 2⟩

end Report

end PocketCalculator.Shell

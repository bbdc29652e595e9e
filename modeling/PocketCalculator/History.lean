namespace PocketCalculator

/-- A calculation that succeeded. The time is in seconds, counted from some midnight. -/
structure Entry where
  expression : String
  result : String
  time : Nat
deriving DecidableEq, Repr

/-- The latest calculations, newest first. -/
structure History where
  capacity : Nat
  entries : List Entry
deriving DecidableEq, Repr

namespace History

def defaultCapacity : Nat := 50

def compactCapacity : Nat := 20

def maxCapacity : Nat := 10000

def empty (capacity : Nat) : History := ⟨capacity, []⟩

/-- Puts an entry in front and drops the oldest ones past the capacity. -/
def push (history : History) (entry : Entry) : History :=
  { history with entries := (entry :: history.entries).take history.capacity }

def get? (history : History) (index : Nat) : Option Entry := history.entries[index]?

def latest? (history : History) : Option Entry := history.entries.head?

def clear (history : History) : History := { history with entries := [] }

end History

namespace Entry

/-- The time of day of an entry, with two digits each for hours, minutes and seconds. -/
def clock (entry : Entry) : String :=
  let two (n : Nat) : String := if n < 10 then "0" ++ n.repr else n.repr
  two (entry.time / 3600 % 24) ++ ":" ++ two (entry.time / 60 % 60) ++ ":" ++
    two (entry.time % 60)

end Entry

end PocketCalculator

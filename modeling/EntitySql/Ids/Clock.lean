/-!
Clocks: an endless sequence of readings in milliseconds, read one after another.
-/
namespace EntitySql.Ids

/-- The readings of a clock, by their positions. -/
abbrev Clock := Nat → Int

namespace Clock

/-- The position of the first reading above `last`, from position `start` on and among `patience` readings. -/
def firstAbove (clock : Clock) (last : Int) : (start patience : Nat) → Option Nat
  | _, 0 => none
  | start, patience + 1 =>
    if clock start > last then some start else firstAbove clock last (start + 1) patience

/-- A run of equal readings. -/
structure Run where
  reading : Int
  count : Nat
  deriving DecidableEq, Repr, Inhabited

/-- The reading at a position of consecutive runs, after which every reading is one more than the one before,
`last` being that before the first run. -/
def ofRuns (last : Int) : List Run → Clock
  | [], n => last + n + 1
  | run :: rest, n =>
    if n < run.count then run.reading
    else ofRuns (if run.count = 0 then last else run.reading) rest (n - run.count)

/-- So many readings hold one above all readings before them: those of the runs, and those that pass the highest
reading after the runs have ended. -/
def patience (last : Int) (runs : List Run) : Nat :=
  let final := runs.foldl (fun r run => if run.count = 0 then r else run.reading) last
  let highest := runs.foldl (fun r run => max r run.reading) last
  runs.foldl (fun n run => n + run.count) 0 + (highest - final).toNat + 1

end Clock

end EntitySql.Ids

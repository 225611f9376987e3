import EntitySql.Ids.Clock
import EntitySql.Ids.Layout

/-!
Generators of ids. A generator numbers the ids of one millisecond and waits for the next one when the numbers run
out; a clock that goes back halts it for good.
-/
namespace EntitySql.Ids

/-- Why no id is minted. -/
inductive IdError where
  | clockMovedBackwards (last now : Int)
  | halted (last : Int)
  | clockBeforeEpoch (now epoch : Int)
  | epochOutOfRange (epoch now : Int)
  | timestampOverflow (now epoch : Int)
  | invalidWorkerId (worker : Nat)
  deriving DecidableEq, Repr, Inhabited

def IdError.message : IdError → String
  | clockMovedBackwards last now =>
    "Clock moved backwards from " ++ toString last ++ " to " ++ toString now ++ "; refusing to mint ids"
  | halted last => "Generator halted after a clock regression at " ++ toString last
  | clockBeforeEpoch now epoch => "Clock reading " ++ toString now ++ " is before the epoch " ++ toString epoch
  | epochOutOfRange epoch now =>
    "Epoch " ++ toString epoch ++ " is more than 2^41 ms before the clock reading " ++ toString now
  | timestampOverflow now epoch =>
    "Clock reading " ++ toString now ++ " no longer fits the 41-bit timestamp of epoch " ++ toString epoch
  | invalidWorkerId worker =>
    "Worker id " ++ toString worker ++ " is out of range (0-" ++ toString maxWorker ++ ")"

/-- A generator: its epoch and worker, the last reading it took up, the sequence number of the last id, and whether
it is halted. -/
structure Generator where
  epoch : Int
  worker : Fin workers
  last : Int
  sequence : Nat := 0
  halted : Bool := false
  deriving DecidableEq, Repr

/-- What a call leaves: its outcome, the generator, and the position of the next reading. -/
structure Step where
  outcome : Except IdError Nat
  generator : Generator
  position : Nat

namespace Generator

def checkWorker (worker : Nat) : Except IdError (Fin workers) :=
  if h : worker < workers then .ok ⟨worker, h⟩ else .error (.invalidWorkerId worker)

/-- A generator that starts at a reading of the clock. -/
def start (worker : Fin workers) (epoch now : Int) : Except IdError Generator :=
  if epoch ≤ now && !fits now epoch then .error (.epochOutOfRange epoch now)
  else .ok { epoch, worker, last := now }

/-- A generator with a clock, which is read once unless the worker is out of range: the generator or an error, and
the position of the next reading. -/
def withClock (worker : Nat) (epoch : Int) (clock : Clock) : Except IdError Generator × Nat :=
  match checkWorker worker with
  | .error e => (.error e, 0)
  | .ok worker => (start worker epoch (clock 0), 1)

/-- Mints the id of a reading, with a sequence number. A reading that does not fit is not taken up. -/
def emit (g : Generator) (now : Int) (sequence position : Nat) : Step :=
  if fits now g.epoch then
    ⟨.ok (compose (now - g.epoch).toNat g.worker sequence), { g with last := now, sequence }, position⟩
  else ⟨.error (.timestampOverflow now g.epoch), { g with sequence }, position⟩

/-- Mints an id, reading the clock from `position` on. There is no answer as long as a generator whose sequence
numbers have run out sees no later millisecond within `patience` readings. -/
def next (patience : Nat) (clock : Clock) (g : Generator) (position : Nat) : Option Step :=
  if g.halted then some ⟨.error (.halted g.last), g, position⟩
  else
    let now := clock position
    if now < g.last then
      some ⟨.error (.clockMovedBackwards g.last now), { g with halted := true }, position + 1⟩
    else if now < g.epoch then some ⟨.error (.clockBeforeEpoch now g.epoch), g, position + 1⟩
    else if now > g.last then some (g.emit now 0 (position + 1))
    else
      let sequence := (g.sequence + 1) % sequences
      if sequence ≠ 0 then some (g.emit now sequence (position + 1))
      else (clock.firstAbove g.last (position + 1) patience).map fun found =>
        g.emit (clock found) 0 (found + 1)

/-- Mints up to `count` ids, stopping at the first error: the ids, the error, the generator and the position of the
next reading. -/
def mint (patience : Nat) (clock : Clock) : (count : Nat) → Generator → (position : Nat) →
    Option (List Nat × Option IdError × Generator × Nat)
  | 0, g, position => some ([], none, g, position)
  | count + 1, g, position =>
    match g.next patience clock position with
    | none => none
    | some ⟨.error e, g, position⟩ => some ([], some e, g, position)
    | some ⟨.ok id, g, position⟩ =>
      (mint patience clock count g position).map fun (ids, rest) => (id :: ids, rest)

end Generator

end EntitySql.Ids

/-!
The layout of ids: 41 bits of milliseconds since an epoch, 10 bits of a worker, 12 bits of a sequence number.
-/
namespace EntitySql.Ids

def sequenceBits : Nat := 12

def workerBits : Nat := 10

def timestampBits : Nat := 41

/-- The number of ids of a worker in one millisecond. -/
def sequences : Nat := 1 <<< sequenceBits

def workers : Nat := 1 <<< workerBits

def maxSequence : Nat := sequences - 1

def maxWorker : Nat := workers - 1

def maxElapsed : Nat := 1 <<< timestampBits - 1

def defaultEpoch : Int := 1704067200000

/-- The fields of an id. -/
structure Parts where
  /-- Milliseconds since 1970. -/
  timestamp : Int
  worker : Nat
  sequence : Nat
  deriving DecidableEq, Repr, Inhabited

/-- Whether a time is at or after the epoch and its distance fits. -/
def fits (now epoch : Int) : Bool :=
  0 ≤ now - epoch && now - epoch ≤ maxElapsed

/-- The id of milliseconds since the epoch, a worker and a sequence number. -/
def compose (elapsed worker sequence : Nat) : Nat :=
  elapsed <<< (sequenceBits + workerBits) ||| worker <<< sequenceBits ||| sequence

def decompose (id epoch : Int) : Parts where
  timestamp := id >>> (sequenceBits + workerBits) + epoch
  worker := (id >>> sequenceBits % workers).toNat
  sequence := (id % sequences).toNat

end EntitySql.Ids

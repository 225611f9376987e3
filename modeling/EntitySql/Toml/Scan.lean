/-!
Scanning text by small readers. A reader takes its part from the front of a text or refuses, and then leaves the
text to the next alternative.
-/
namespace EntitySql.Toml

/-- A reader: what it reads, and the text after it. -/
abbrev Reader := StateT (List Char) Option

namespace Reader

/-- The next character, if it is of a class. -/
def char (isIn : Char → Bool) : Reader Char := fun
  | [] => none
  | c :: cs => if isIn c then some (c, cs) else none

def word (s : String) : Reader Unit := fun cs =>
  if s.toList.isPrefixOf cs then some ((), cs.drop s.length) else none

def run (isIn : Char → Bool) : Reader (List Char) := fun cs =>
  some (cs.takeWhile isIn, cs.dropWhile isIn)

/-- The longest run of characters of a class, not empty. -/
def run1 (isIn : Char → Bool) : Reader (List Char) := fun cs =>
  match cs.takeWhile isIn with
  | [] => none
  | taken => some (taken, cs.dropWhile isIn)

def times (n : Nat) (isIn : Char → Bool) : Reader (List Char) := fun cs =>
  let taken := cs.take n
  if taken.length = n && taken.all isIn then some (taken, cs.drop n) else none

def require (condition : Bool) : Reader Unit := fun cs =>
  if condition then some ((), cs) else none

/-- The rest of the text, which stays. -/
def peek : Reader (List Char) := fun cs => some (cs, cs)

end Reader

/-- The value of digits of a base up to 16. -/
def digitsValue (base : Nat) (cs : List Char) : Nat :=
  cs.foldl (fun n c =>
    n * base + (if c.isDigit then c.toNat - 48 else if c.toNat < 97 then c.toNat - 55 else c.toNat - 87)) 0

def isHexDigit (c : Char) : Bool :=
  c.isDigit || ('a' ≤ c && c ≤ 'f') || ('A' ≤ c && c ≤ 'F')

/-- Digits of a class in which an underscore may stand between two digits. -/
def readDigits (isIn : Char → Bool) : Nat → Reader (List Char)
  | 0 => failure
  | steps + 1 => do
    let first ← Reader.run1 isIn
    let more ← optional (Reader.word "_" *> readDigits isIn steps)
    return first ++ more.getD []

/-- Digits of a class, as many as there are. -/
def groupedDigits (isIn : Char → Bool) : Reader (List Char) := do
  readDigits isIn ((← Reader.peek).length + 1)

end EntitySql.Toml

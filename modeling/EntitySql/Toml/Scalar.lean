import EntitySql.Toml.Item
import EntitySql.Toml.Scan

/-!
Numbers, truth values, dates and times of TOML.
-/
namespace EntitySql.Toml
open Reader

/-- A sign; whether it is a minus. -/
def readSign : Reader Bool := do
  match ← optional (char fun c => c = '+' || c = '-') with
  | some c => return c = '-'
  | none => return false

def decimalDigits : Reader (List Char) := do
  let digits ← (do
    let first ← char fun c => '1' ≤ c && c ≤ '9'
    let next ← optional (groupedDigits Char.isDigit)
    let later ← optional (word "_" *> groupedDigits Char.isDigit)
    return first :: (next.or later).getD [])
    <|> times 1 (· = '0')
  return digits

def integerItem (negative : Bool) (magnitude : Nat) : Reader Item := do
  let value : Int := if negative then -magnitude else magnitude
  require (Int64.minValue.toInt ≤ value && value ≤ Int64.maxValue.toInt)
  return .integer value

def prefixedInteger (mark : String) (base : Nat) (isIn : Char → Bool) : Reader Item := do
  word mark
  integerItem false (digitsValue base (← groupedDigits isIn))

def readInteger : Reader Item :=
  prefixedInteger "0x" 16 isHexDigit <|> prefixedInteger "0o" 8 (fun c => '0' ≤ c && c ≤ '7') <|>
    prefixedInteger "0b" 2 (fun c => c = '0' || c = '1') <|> do
      let negative ← readSign
      integerItem negative (digitsValue 10 (← decimalDigits))

def readExponent : Reader Int := do
  let _ ← char fun c => c = 'e' || c = 'E'
  let negative ← readSign
  let n : Int := digitsValue 10 (← groupedDigits Char.isDigit)
  return if negative then -n else n

/-- Whether `digits * 10 ^ exponent` rounds to more than the largest binary number of 64 bits. -/
def exceedsFloat (digits : Nat) (exponent : Int) : Bool :=
  let top := (Nat.toDigits 10 digits).length + exponent
  let bound := Nat.pow 2 1024 - Nat.pow 2 970
  digits ≠ 0 && top ≥ 308 &&
    (top > 310 || digits * Nat.pow 10 exponent.toNat ≥ bound * Nat.pow 10 (-exponent).toNat)

def decimalFloat : Reader Item := do
  let negative ← readSign
  let whole ← decimalDigits
  let fraction ← optional (word "." *> groupedDigits Char.isDigit)
  let exponent ← optional readExponent
  require (fraction.isSome || exponent.isSome)
  let places := fraction.getD []
  require (negative || !exceedsFloat (digitsValue 10 (whole ++ places)) (exponent.getD 0 - places.length))
  return .float

def readFloat : Reader Item :=
  decimalFloat <|> do
    let _ ← readSign
    word "inf" <|> word "nan"
    return .float

def boundedDigits (count low high : Nat) : Reader Nat := do
  let n := digitsValue 10 (← times count Char.isDigit)
  require (low ≤ n && n ≤ high)
  return n

def daysIn (year month : Nat) : Nat :=
  if month = 2 then if year % 4 = 0 && (year % 100 ≠ 0 || year % 400 = 0) then 29 else 28
  else if month ∈ [4, 6, 9, 11] then 30 else 31

def readDate : Reader Unit := do
  let year ← boundedDigits 4 0 9999
  word "-"
  let month ← boundedDigits 2 1 12
  word "-"
  let day ← boundedDigits 2 1 31
  require (day ≤ daysIn year month)

def readTime : Reader Unit := do
  let _ ← boundedDigits 2 0 23
  word ":"
  let _ ← boundedDigits 2 0 59
  word ":"
  let _ ← boundedDigits 2 0 60
  let _ ← optional (word "." *> run1 Char.isDigit)
  return ()

def readOffset : Reader Unit :=
  (do let _ ← char fun c => c = 'Z' || c = 'z'; return ()) <|> do
    let _ ← char fun c => c = '+' || c = '-'
    let _ ← boundedDigits 2 0 23
    word ":"
    let _ ← boundedDigits 2 0 59
    return ()

/-- A date, a time, or both. -/
def readDatetime : Reader Item :=
  (do
    readDate
    let _ ← optional (do
      let _ ← char fun c => c = 'T' || c = 't' || c = ' '
      readTime
      optional readOffset)
    return .datetime) <|> do
      readTime
      return .datetime

/-- A value that is neither text nor made of other values. -/
def readScalar : Reader Item :=
  (do word "true"; return .boolean true) <|> (do word "false"; return .boolean false) <|>
    readDatetime <|> readFloat <|> readInteger

end EntitySql.Toml

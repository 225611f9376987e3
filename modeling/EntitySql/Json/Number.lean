import EntitySql.Decimal.Shortest

/-!
Numbers of a JSON text that are not integers of 64 bits: a significand and a power of ten. A significand keeps the
leading digits that fit in 64 bits; the value is the nearest binary number to the significand, scaled once.
-/
namespace EntitySql.Json

/-- The number `digits * 10 ^ exponent`, negative if so marked. -/
structure Scaled where
  negative : Bool
  digits : Nat
  exponent : Int
  deriving DecidableEq, Repr, Inhabited

/-- A power of ten up to the largest one that is a binary number. -/
def powerOfTen (n : Nat) : Float :=
  Float.ofScientific 1 false n

/-- Divides by `10 ^ n`, in steps of `10 ^ 308`. -/
def dividedByPower : Nat → Float → Nat → Float
  | 0, f, _ => f
  | steps + 1, f, n => if n ≤ 308 then f / powerOfTen n else dividedByPower steps (f / powerOfTen 308) (n - 308)

/-- The absolute value as a binary number; none if it is too large. -/
def Scaled.magnitude? (x : Scaled) : Option Float :=
  let f := x.digits.toUInt64.toFloat
  if x.exponent < 0 then some (dividedByPower 3 f (-x.exponent).toNat)
  else if x.digits = 0 then some f
  else if x.exponent > 308 then none
  else
    let g := f * powerOfTen x.exponent.toNat
    if g.isInf then none else some g

/-- The layout of a decimal: positional, and with a point, from `10 ^ -5` up to 16 places before the point, else
with a signed power of ten. -/
def layout (digits : Nat) (place : Int) : String :=
  let ds := Nat.toDigits 10 digits
  let before := (ds.length : Int) + place
  let zeros (n : Int) : List Char := List.replicate n.toNat '0'
  String.ofList <|
    if 0 ≤ place && before ≤ 16 then ds ++ zeros place ++ ['.', '0']
    else if 0 < before && before ≤ 16 then ds.take before.toNat ++ '.' :: ds.drop before.toNat
    else if -5 < before && before ≤ 0 then '0' :: '.' :: zeros (-before) ++ ds
    else
      let power := 'e' :: (if 0 < before then ['+'] else []) ++ (toString (before - 1)).toList
      match ds with
      | [d] => d :: power
      | d :: more => d :: '.' :: more ++ power
      | [] => power

/-- The number with the fewest digits that read back. -/
def Scaled.text (x : Scaled) : String :=
  let f := x.magnitude?.getD 0
  let sign := if x.negative then "-" else ""
  if f == 0 then sign ++ "0.0"
  else
    let (digits, place) := (Decimal.Cell.ofBits f.toBits).shortest
    sign ++ layout digits place

end EntitySql.Json

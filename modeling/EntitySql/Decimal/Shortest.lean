/-!
Shortest decimals: the decimal with the fewest digits that rounds to a given binary number, in exact arithmetic
on natural numbers.
-/
namespace EntitySql.Decimal

/-- The binary number `mantissa * 2 ^ exponent` with the interval of reals that round to it, in quarters of the
last binary place. -/
structure Cell where
  mantissa : Nat
  exponent : Int
  /-- Distance to the lower end, in quarters: one where the numbers below lie twice as close. -/
  below : Nat
  deriving Repr

/-- The cell of a finite positive number with 53 binary digits. -/
def Cell.ofBits (bits : UInt64) : Cell :=
  let unit : Nat := 1 <<< 52
  let fraction : Nat := bits.toNat % unit
  let power : Nat := bits.toNat / unit % 2048
  if power = 0 then ⟨fraction, -1074, 2⟩
  else ⟨unit + fraction, (power : Int) - 1075, if fraction = 0 && power > 1 then 1 else 2⟩

/-- `count` quarters of the last binary place of a cell, and the grid step `10 ^ place`, as multiples of a common
unit. -/
def Cell.scales (c : Cell) (place : Int) : Nat × Nat :=
  let q := c.exponent - 2
  (Nat.pow 2 q.toNat * Nat.pow 10 (-place).toNat, Nat.pow 10 place.toNat * Nat.pow 2 (-q).toNat)

/-- The point of the grid `10 ^ place` that lies in the cell, nearest to its centre. -/
def Cell.pointOn (c : Cell) (place : Int) : Option Nat :=
  let (quarter, step) := c.scales place
  let centre := 4 * c.mantissa * quarter
  let low := (4 * c.mantissa - c.below) * quarter
  let high := (4 * c.mantissa + 2) * quarter
  let inside (n : Nat) : Bool :=
    if c.mantissa % 2 = 0 then low ≤ n * step && n * step ≤ high else low < n * step && n * step < high
  let n := centre / step
  let candidates := [n, n + 1].filter fun k => inside k && k > 0
  match candidates with
  | [a, b] => some (if centre - a * step ≤ b * step - centre then a else b)
  | found => found.head?

/-- The digits and the place of the shortest decimal in a cell, found on the coarsest grid with a point in it. -/
def Cell.shortest (c : Cell) : Nat × Int :=
  ((List.range 660).findSome? fun (k : Nat) =>
    let place : Int := 310 - (k : Int)
    (c.pointOn place).map (·, place)).getD (0, 0)

end EntitySql.Decimal

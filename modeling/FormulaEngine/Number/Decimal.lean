import FormulaEngine.Number.Dyadic

/-!
# Shortest decimals

The decimal of a double is the one with the fewest digits among those nearer to it than to any
other double, and among those the nearest to it. A tie between two of them is left to the text that
is written.
-/

namespace FormulaEngine

/-- The positive number `significand * 10 ^ exponent`. -/
structure Decimal where
  significand : Nat
  exponent : Int
  deriving DecidableEq, Repr

/-- Which of two equally near decimals stands for a double. -/
inductive Tie where
  | upward
  | even
  deriving DecidableEq, Repr

/-- A positive magnitude on a decimal grid. All four numbers are in one unit, in which the grid
points are the multiples of `step`: the magnitude itself, and the ends of the interval of numbers
that round to it. -/
structure Grid where
  step : Nat
  value : Nat
  low : Nat
  high : Nat
  closed : Bool
  deriving DecidableEq, Repr

namespace Dyadic

/-- The magnitude `d` on the grid of the multiples of `10 ^ k`. The interval reaches halfway to the
neighbouring doubles and holds its ends when the mantissa is even; below a power of two the
neighbour is half as far. -/
def grid (d : Dyadic) (k : Int) : Grid :=
  let unit := Nat.pow 2 (d.exponent - 2).toNat * Nat.pow 10 (-k).toNat
  let down := if d.mantissa = fullMantissa then 1 else 2
  { step := Nat.pow 10 k.toNat * Nat.pow 2 (2 - d.exponent).toNat
    value := 4 * d.mantissa * unit
    low := (4 * d.mantissa - down) * unit
    high := (4 * d.mantissa + 2) * unit
    closed := d.mantissa % 2 == 0 }

def digitCount (n : Nat) : Nat := (Nat.toDigits 10 n).length

/-- The exponent of the first digit of a positive magnitude: the greatest `k` with `10 ^ k` at most
the magnitude. -/
def leadingExponent (d : Dyadic) : Int :=
  let ones := d.grid 0
  if ones.step ≤ ones.value then digitCount (ones.value / ones.step) - 1
  else
    let count := digitCount (ones.step / ones.value)
    if ones.step ≤ ones.value * Nat.pow 10 (count - 1) then 1 - count else -count

end Dyadic

namespace Grid

/-- Whether the `c`-th grid point rounds to the magnitude. -/
def covers (g : Grid) (c : Nat) : Bool :=
  if g.closed then decide (g.low ≤ c * g.step ∧ c * g.step ≤ g.high)
  else decide (g.low < c * g.step ∧ c * g.step < g.high)

/-- Whether, of the grid points `c` and `c + 1` around the magnitude, the upper one is chosen. -/
def prefersUpper (g : Grid) (tie : Tie) (c : Nat) : Bool :=
  let twice := 2 * g.value
  let middle := (2 * c + 1) * g.step
  if twice = middle then
    match tie with
    | .upward => true
    | .even => c % 2 == 1
  else decide (middle < twice)

/-- The grid point that rounds to the magnitude, the nearer one if there are two. -/
def nearest? (g : Grid) (tie : Tie) : Option Nat :=
  let lower := g.value / g.step
  match g.covers lower, g.covers (lower + 1) with
  | true, true => some (if g.prefersUpper tie lower then lower + 1 else lower)
  | true, false => some lower
  | false, true => some (lower + 1)
  | false, false => none

end Grid

namespace Decimal

/-- Moves the zeros at the end of the significand into the exponent. `room` bounds their number. -/
def trim (room : Nat) (d : Decimal) : Decimal :=
  match room with
  | 0 => d
  | room + 1 =>
    if d.significand % 10 = 0 then trim room ⟨d.significand / 10, d.exponent + 1⟩ else d

/-- The shortest decimal of a positive magnitude. Seventeen digits always suffice. -/
def shortest (tie : Tie) (d : Dyadic) : Decimal :=
  let onGrid (digits : Nat) : Option Decimal :=
    let k := d.leadingExponent + 1 - digits
    ((d.grid k).nearest? tie).map fun c => ⟨c, k⟩
  let found := ((List.range' 1 17).findSome? onGrid).getD ⟨d.mantissa, d.exponent⟩
  found.trim 17

def digits (d : Decimal) : List Char := Nat.toDigits 10 d.significand

end Decimal

end FormulaEngine

/-!
# Doubles as exact numbers

A finite double is a sign and a magnitude `mantissa * 2 ^ exponent`. The remainder of a division is
taken on these magnitudes, where it is exact, and never in floating-point arithmetic.
-/

namespace FormulaEngine

/-- The magnitude `mantissa * 2 ^ exponent`. -/
structure Dyadic where
  mantissa : Nat
  exponent : Int
  deriving DecidableEq, Repr

namespace Dyadic

/-- The least mantissa that fills all the bits of one. -/
def fullMantissa : Nat := Nat.pow 2 52

def signBit : Nat := Nat.pow 2 63

/-- The exponent of the least positive double. -/
def leastExponent : Int := -1074

/-- The magnitude of a finite double. Its bits are the sign, an exponent field of eleven bits, and
the mantissa, of which a field above zero leaves the first bit out. -/
def ofFloat (x : Float) : Dyadic :=
  let fraction : Nat := x.toBits.toNat % fullMantissa
  let field : Nat := x.toBits.toNat / fullMantissa % 2048
  if field = 0 then ⟨fraction, leastExponent⟩
  else ⟨fullMantissa + fraction, leastExponent + field - 1⟩

/-- Whether the sign bit of a double is set, which it is for `-0.0`. -/
def isNegative (x : Float) : Bool :=
  decide (signBit ≤ x.toBits.toNat)

/-- The double of a sign and a magnitude with a mantissa below `2 ^ 53` and an exponent of at
least `leastExponent`: such a magnitude is a double exactly. -/
def toFloat (negative : Bool) (d : Dyadic) : Float :=
  let sign := if negative then signBit else 0
  if d.mantissa = 0 then Float.ofBits (UInt64.ofNat sign)
  else
    let shift := min (52 - d.mantissa.log2) (d.exponent - leastExponent).toNat
    let mantissa := d.mantissa * Nat.pow 2 shift
    let field := (d.exponent - leastExponent).toNat - shift + 1
    let magnitude :=
      if mantissa < fullMantissa then mantissa
      else field * fullMantissa + (mantissa - fullMantissa)
    Float.ofBits (UInt64.ofNat (sign + magnitude))

/-- What is left of `a` after taking away `b` as often as it fits. -/
def remainder (a b : Dyadic) : Dyadic :=
  let exponent := min a.exponent b.exponent
  ⟨a.mantissa * Nat.pow 2 (a.exponent - exponent).toNat %
    (b.mantissa * Nat.pow 2 (b.exponent - exponent).toNat), exponent⟩

end Dyadic

/-- The remainder of the division that rounds toward zero. It has the sign of the dividend; an
infinite divisor leaves the dividend, and an infinite dividend has no remainder. -/
def floatRemainder (x y : Float) : Float :=
  if x.isNaN || y.isNaN || x.isInf || y == 0 then 0 / 0
  else if y.isInf then x
  else (Dyadic.remainder (.ofFloat x) (.ofFloat y)).toFloat (Dyadic.isNegative x)

end FormulaEngine

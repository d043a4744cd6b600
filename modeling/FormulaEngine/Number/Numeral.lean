import FormulaEngine.Number.Decimal

/-!
# Numerals

A numeral is a number as it is written: a sign, digits before and after a point, and an exponent.
Reading one takes as many leading digits as fit a 64-bit word, makes a double of them and scales it
by the power of ten in floating-point arithmetic. Writing one starts from the shortest decimal and
follows a `NumberStyle`.
-/

namespace FormulaEngine

/-- A written number. Without a fraction there is no point; the exponent has its own sign. -/
structure Numeral where
  negative : Bool
  whole : List Char
  fraction : List Char
  exponent : Option (Bool × List Char)
  deriving DecidableEq, Repr

namespace Numeral

def digitValue (c : Char) : Nat := c.toNat - '0'.toNat

def digitsValue (digits : List Char) : Nat :=
  digits.foldl (fun n c => 10 * n + digitValue c) 0

def ofNat (n : Nat) : Numeral := ⟨false, Nat.toDigits 10 n, [], none⟩

/-! ### Text -/

/-- The text of a numeral. The sign of an exponent is always written. -/
def toChars (n : Numeral) : List Char :=
  (if n.negative then ['-'] else []) ++ n.whole ++
    (if n.fraction.isEmpty then [] else '.' :: n.fraction) ++
    match n.exponent with
    | none => []
    | some (negative, digits) => 'e' :: (if negative then '-' else '+') :: digits

def takeDigits (text : List Char) : List Char × List Char :=
  (text.takeWhile Char.isDigit, text.dropWhile Char.isDigit)

/-- Reads the exponent that ends a numeral: a letter, an optional sign and at least one digit. -/
def readExponent : List Char → Option (Option (Bool × List Char))
  | [] => some none
  | letter :: rest =>
    if letter = 'e' || letter = 'E' then
      let (negative, digits) :=
        match rest with
        | '-' :: digits => (true, digits)
        | '+' :: digits => (false, digits)
        | digits => (false, digits)
      if digits.isEmpty || !digits.all Char.isDigit then none else some (some (negative, digits))
    else none

/-- Reads a numeral: no superfluous leading zero, and digits on both sides of a point. -/
def ofChars? (text : List Char) : Option Numeral :=
  let (negative, text) :=
    match text with
    | '-' :: rest => (true, rest)
    | rest => (false, rest)
  let (whole, rest) := takeDigits text
  if whole.isEmpty || (whole.head? == some '0' && whole.length != 1) then none
  else
    match rest with
    | '.' :: rest =>
      let (fraction, rest) := takeDigits rest
      if fraction.isEmpty then none
      else (readExponent rest).map fun exponent => ⟨negative, whole, fraction, exponent⟩
    | rest => (readExponent rest).map fun exponent => ⟨negative, whole, [], exponent⟩

/-! ### The double of a numeral -/

/-- The significand of a numeral under reading: an integer below `2 ^ 64` and a power of ten. -/
structure Scaled where
  significand : Nat
  exponent : Int
  deriving DecidableEq, Repr

/-- Whether a digit can be appended to a significand within 64 bits. -/
def fits (significand : Nat) (digit : Char) : Bool :=
  decide (10 * significand + digitValue digit < UInt64.size)

/-- Takes digits before the point. From the first that does not fit, each only scales by ten. -/
def takeWhole (significand : Nat) : List Char → Scaled
  | [] => ⟨significand, 0⟩
  | c :: rest =>
    if fits significand c then takeWhole (10 * significand + digitValue c) rest
    else ⟨significand, (c :: rest).length⟩

/-- Takes digits after the point. From the first that does not fit, all are dropped. -/
def takeFraction (s : Scaled) : List Char → Scaled
  | [] => s
  | c :: rest =>
    if fits s.significand c then
      takeFraction ⟨10 * s.significand + digitValue c, s.exponent - 1⟩ rest
    else s

/-- The power of ten written behind the digits, within the range of a 32-bit word. -/
def writtenExponent (n : Numeral) : Int :=
  match n.exponent with
  | none => 0
  | some (negative, digits) =>
    let size := min (digitsValue digits) 2147483647
    if negative then -size else size

def scaled (n : Numeral) : Scaled :=
  let s := takeFraction (takeWhole 0 n.whole) n.fraction
  ⟨s.significand, s.exponent + n.writtenExponent⟩

/-- The greatest power of ten that is a double. -/
def greatestPower : Nat := 308

/-- Scales down by more than one step: two steps of at most `greatestPower` reach zero. -/
def scaleDown (x : Float) (k : Nat) : Float :=
  if k ≤ greatestPower then x / Float.ofScientific 1 false k
  else if k ≤ 2 * greatestPower then
    x / Float.ofScientific 1 false greatestPower / Float.ofScientific 1 false (k - greatestPower)
  else 0

/-- The magnitude of a numeral, unless it is too large for a double. -/
def magnitude? (s : Scaled) : Option Float :=
  let x := Float.ofNat s.significand
  if s.significand = 0 then some 0
  else if s.exponent < 0 then some (scaleDown x s.exponent.natAbs)
  else if greatestPower < s.exponent.natAbs then none
  else
    let y := x * Float.ofScientific 1 false s.exponent.natAbs
    if y.isInf then none else some y

/-- The double that a numeral stands for, unless it is too large for one. -/
def toFloat? (n : Numeral) : Option Float :=
  (magnitude? n.scaled).map fun x => if n.negative then -x else x

end Numeral

/-! ### Writing doubles -/

structure NumberStyle where
  tie : Tie
  /-- Whether a decimal is written without an exponent, by the exponent of its first digit. -/
  positional : Int → Bool
  /-- Whether an integer without an exponent gets a fraction `0`. -/
  keepsPoint : Bool

namespace Numeral

def positional (style : NumberStyle) (negative : Bool) (d : Decimal) : Numeral :=
  let point := d.digits.length + d.exponent
  let whole := d.digits.take point.toNat ++ List.replicate d.exponent.toNat '0'
  let fraction := List.replicate (-point).toNat '0' ++ d.digits.drop point.toNat
  ⟨negative, if whole.isEmpty then ['0'] else whole,
    if fraction.isEmpty && style.keepsPoint then ['0'] else fraction, none⟩

/-- Writes a decimal with one digit before the point and an exponent. -/
def scientific (negative : Bool) (d : Decimal) : Numeral :=
  let exponent := d.digits.length + d.exponent - 1
  ⟨negative, d.digits.take 1, d.digits.drop 1,
    some (decide (exponent < 0), Nat.toDigits 10 exponent.natAbs)⟩

def ofFloat (style : NumberStyle) (x : Float) : Numeral :=
  let negative := Dyadic.isNegative x
  let magnitude := Dyadic.ofFloat x
  if magnitude.mantissa = 0 then ⟨negative, ['0'], if style.keepsPoint then ['0'] else [], none⟩
  else
    let d := Decimal.shortest style.tie magnitude
    if style.positional (d.digits.length + d.exponent - 1) then positional style negative d
    else scientific negative d

end Numeral

end FormulaEngine

import FormulaEngine.Json.Basic

/-!
# JSON tokens

A scanner reads a text one character at a time. What it has begun and not yet ended is its mode.
-/

namespace FormulaEngine.Json

/-- A token. The content of a string is missing when it holds half of a surrogate pair. -/
inductive Token where
  | beginArray
  | endArray
  | beginObject
  | endObject
  | comma
  | colon
  | null
  | bool (b : Bool)
  | number (n : Numeral)
  | string (s : Option String)
  deriving DecidableEq, Repr

namespace Token

/-! ### Code units -/

/-- Whether a code unit is the first half of a surrogate pair. -/
def isHigh (u : Nat) : Bool := 0xD800 ≤ u && u < 0xDC00

/-- Whether a code unit is the second half of a surrogate pair. -/
def isLow (u : Nat) : Bool := 0xDC00 ≤ u && u < 0xE000

def joinPair (high low : Nat) : Nat := 0x10000 + (high - 0xD800) * 0x400 + (low - 0xDC00)

/-- The characters of a sequence of code points and halves of surrogate pairs, unless a half stands
alone. -/
def joinUnits : List Nat → Option (List Char)
  | [] => some []
  | [u] => if isHigh u || isLow u then none else some [Char.ofNat u]
  | u :: v :: rest =>
    if isHigh u then
      if isLow v then (joinUnits rest).map (Char.ofNat (joinPair u v) :: ·) else none
    else if isLow u then none
    else (joinUnits (v :: rest)).map (Char.ofNat u :: ·)

/-! ### Scanning -/

/-- What the scanner is inside of. Characters and code units read so far are the latest first. -/
inductive Mode where
  | between
  | word (chars : List Char)
  | number (chars : List Char)
  | string (units : List Nat)
  | escape (units : List Nat)
  | unicode (units : List Nat) (value count : Nat)

def isSpace (c : Char) : Bool := c == ' ' || c == '\t' || c == '\n' || c == '\r'

def isNumeric (c : Char) : Bool :=
  c.isDigit || c == '-' || c == '+' || c == '.' || c == 'e' || c == 'E'

def ofPunctuation? (c : Char) : Option Token :=
  if c = '[' then some .beginArray
  else if c = ']' then some .endArray
  else if c = '\x7b' then some .beginObject
  else if c = '\x7d' then some .endObject
  else if c = ',' then some .comma
  else if c = ':' then some .colon
  else none

def ofWord? (chars : List Char) : Option Token :=
  if chars = "null".toList then some .null
  else if chars = "true".toList then some (.bool true)
  else if chars = "false".toList then some (.bool false)
  else none

/-- A character outside of any token: a token of its own, or the beginning of one. -/
def start (c : Char) : Option (List Token × Mode) :=
  if isSpace c then some ([], .between)
  else if c = '"' then some ([], .string [])
  else if c.isDigit || c = '-' then some ([], .number [c])
  else if c.isLower then some ([], .word [c])
  else (ofPunctuation? c).map fun token => ([token], .between)

def escaped? (c : Char) : Option Char :=
  if c = '"' || c = '\\' || c = '/' then some c
  else if c = 'b' then some '\x08'
  else if c = 'f' then some '\x0c'
  else if c = 'n' then some '\n'
  else if c = 'r' then some '\r'
  else if c = 't' then some '\t'
  else none

def hexValue? (c : Char) : Option Nat :=
  if c.isDigit then some (c.toNat - '0'.toNat)
  else if 'a' ≤ c ∧ c ≤ 'f' then some (c.toNat - 'a'.toNat + 10)
  else if 'A' ≤ c ∧ c ≤ 'F' then some (c.toNat - 'A'.toNat + 10)
  else none

/-- The token that a word or a numeral ends as, or that a string is with its closing quote. -/
def close : Mode → Option Token
  | .word chars => ofWord? chars.reverse
  | .number chars => (Numeral.ofChars? chars.reverse).map .number
  | .string units => some (.string ((joinUnits units.reverse).map String.ofList))
  | _ => none

/-- One character: the tokens that end with it, and the mode after it. -/
def step : Mode → Char → Option (List Token × Mode)
  | .between, c => start c
  | .word chars, c =>
    if c.isLower then some ([], .word (c :: chars))
    else do
      let token ← close (.word chars)
      let (tokens, mode) ← start c
      some (token :: tokens, mode)
  | .number chars, c =>
    if isNumeric c then some ([], .number (c :: chars))
    else do
      let token ← close (.number chars)
      let (tokens, mode) ← start c
      some (token :: tokens, mode)
  | .string units, c =>
    if c = '"' then (close (.string units)).map fun token => ([token], .between)
    else if c = '\\' then some ([], .escape units)
    else if c.toNat < 0x20 then none
    else some ([], .string (c.toNat :: units))
  | .escape units, c =>
    if c = 'u' then some ([], .unicode units 0 0)
    else (escaped? c).map fun e => ([], .string (e.toNat :: units))
  | .unicode units value count, c => do
    let digit ← hexValue? c
    let value := 16 * value + digit
    some ([], if count = 3 then .string (value :: units) else .unicode units value (count + 1))

/-- The tokens that the end of the text ends. -/
def finish : Mode → Option (List Token)
  | .between => some []
  | .word chars => (close (.word chars)).map ([·])
  | .number chars => (close (.number chars)).map ([·])
  | _ => none

def scanFrom : Mode → List Char → Option (List Token)
  | mode, [] => finish mode
  | mode, c :: rest => do
    let (tokens, mode) ← step mode c
    let later ← scanFrom mode rest
    some (tokens ++ later)

def scan (text : List Char) : Option (List Token) := scanFrom .between text

end Token

end FormulaEngine.Json

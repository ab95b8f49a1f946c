import SoleRoot.Json.Cursor

/-!
# Numerals

How a number is written, and which number that is.

A numeral has a whole part without needless zeros, and may have a fraction and
an exponent, each with at least one digit. One without either is an integer if
sixty-four bits hold it; any other is a floating point number, found from as
many leading digits as sixty-four bits hold and the power of ten behind them.

A number too large to be held is refused. If its exponent alone says so, the
digits of the exponent that come after are not looked at.

## Main definitions

* `Numeral`: The parts of a number as it is written.
* `readNumeral`: Reading them.
* `Numeral.value`: The number.
* `readNumber`: The two together.
-/

namespace SoleRoot

namespace Json

/-- The parts of a number as it is written. -/
structure Numeral where
  negative : Bool := false
  whole : List Char
  fraction : List Char := []
  /-- The sign of the exponent, negative or not, and its digits. -/
  exponent : Option (Bool × List Char) := none
  deriving DecidableEq, Repr

/-- The cursor behind a run of digits, and the run. -/
def takeDigits (c : Cursor) : List Char × Cursor :=
  let digits := c.rest.takeWhile Char.isDigit
  (digits, c.behind digits (c.rest.dropWhile Char.isDigit))

/-- Read digits of which there has to be one. -/
def readDigits (atEnd : Cause) (c : Cursor) : Except Fault (List Char × Cursor) :=
  match takeDigits c with
  | ([], _) => c.failAtNext atEnd .invalidNumber
  | taken => .ok taken

/-- Read a sign, if there is one: whether it is negative. -/
def takeSign (c : Cursor) : Bool × Cursor :=
  if c.peek? = some '-' then (true, c.next)
  else if c.peek? = some '+' then (false, c.next)
  else (false, c)

/-- Read a whole part. A zero stands alone. -/
def readWhole (atEnd : Cause) (c : Cursor) : Except Fault (List Char × Cursor) :=
  if c.peek? = some '0' then
    if c.next.peek?.any Char.isDigit then c.next.failAhead .invalidNumber
    else .ok (['0'], c.next)
  else readDigits atEnd c

/-- Read a fraction, if there is one. -/
def readFraction (atEnd : Cause) (c : Cursor) : Except Fault (List Char × Cursor) :=
  if c.peek? = some '.' then readDigits atEnd c.next else .ok ([], c)

/-- Read an exponent, if there is one. -/
def readExponent (atEnd : Cause) (c : Cursor) :
    Except Fault (Option (Bool × List Char) × Cursor) :=
  if c.peek? = some 'e' ∨ c.peek? = some 'E' then do
    let (negative, c) := takeSign c.next
    let (digits, c) ← readDigits atEnd c
    .ok (some (negative, digits), c)
  else .ok (none, c)

/-- Read a numeral, with a cause for a text that ends where a digit is due. -/
def readNumeral (atEnd : Cause) (c : Cursor) : Except Fault (Numeral × Cursor) := do
  let negative := c.peek? = some '-'
  let (whole, c) ← readWhole atEnd (if negative then c.next else c)
  let (fraction, c) ← readFraction atEnd c
  let (exponent, c) ← readExponent atEnd c
  .ok (⟨negative, whole, fraction, exponent⟩, c)

/-- Put digits behind a number as long as it stays below a bound: the number,
    and how many digits are left. -/
def gather (bound n : Nat) : List Char → Nat × Nat
  | [] => (n, 0)
  | d :: ds =>
    let m := 10 * n + (d.toNat - '0'.toNat)
    if m < bound then gather bound m ds else (n, ds.length + 1)

/-- A number divided by a power of ten. -/
def scaleDown (x : Float) (power : Nat) : Float :=
  if power ≤ 308 then x / Float.ofScientific 1 false power
  else if x == 0.0 then x
  else scaleDown (x / 1e308) (power - 308)
termination_by power

/-- A number times a power of ten, unless that is too large to be held. -/
def scaleUp? (x : Float) (power : Nat) : Option Float :=
  if power ≤ 308 then
    let y := x * Float.ofScientific 1 false power
    if y.isInf then none else some y
  else if x == 0.0 then some x
  else none

/-- A number times or divided by a power of ten. -/
def scale? (x : Float) : Int → Option Float
  | .ofNat power => scaleUp? x power
  | .negSucc power => some (scaleDown x (power + 1))

namespace Numeral

/-- The number with a sign. -/
def signed (n : Numeral) (x : Float) : Number :=
  .float (if n.negative then -x else x)

/-- The integer of a magnitude, if sixty-four bits hold it. There is no
    negative zero among the integers. -/
def integer? (n : Numeral) (magnitude : Nat) : Option Int :=
  if n.negative then
    if 0 < magnitude ∧ magnitude ≤ Nat.pow 2 63 then some (-magnitude) else none
  else some magnitude

/-- The number that a numeral stands for. One too large to be held gives
    instead how many characters at its end need not be looked at. -/
def value (n : Numeral) : Except Nat Number :=
  let (whole, wholeLeft) := gather (Nat.pow 2 64) 0 n.whole
  let (significand, fractionLeft) := gather (Nat.pow 2 64) whole n.fraction
  let x := significand.toUInt64.toFloat
  let power : Int := Int.ofNat (wholeLeft + fractionLeft) - n.fraction.length
  let scaled (power : Int) : Except Nat Number :=
    match scale? x power with
    | some y => .ok (n.signed y)
    | none => .error 0
  match n.exponent with
  | none =>
    if n.fraction.isEmpty ∧ wholeLeft = 0 then
      match n.integer? whole with
      | some i => .ok (.integer i)
      | none => .ok (n.signed x)
    else scaled power
  | some (negative, digits) =>
    match gather (Nat.pow 2 31) 0 digits with
    | (exponent, 0) => scaled (if negative then power - exponent else power + exponent)
    | (_, left + 1) =>
      if significand = 0 ∨ negative then .ok (n.signed 0.0) else .error left

end Numeral

/-- Read a number. -/
def readNumber (c : Cursor) : Except Fault (Number × Cursor) := do
  let (numeral, c) ← readNumeral .endOfValue c
  match numeral.value with
  | .ok number => .ok (number, c)
  | .error left => .error ⟨.numberOutOfRange, c.offset - left⟩

/-- Look through a number. -/
def skipNumber (c : Cursor) : Except Fault Cursor :=
  (readNumeral .invalidNumber c).map (·.2)

end Json

end SoleRoot

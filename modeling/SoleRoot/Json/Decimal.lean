/-!
# The Fewest Digits of a Number

The text of a binary floating point number, as short as it can be.

Every such number is a natural number times a power of two, and it stands for
all real numbers that are nearer to it than to its neighbours. Its text is the
number with the fewest decimal digits among those, and of several the one
nearest to it. `shortest` finds it by exact arithmetic: for each count of
digits it looks at the two numbers with so many digits on either side.

How the digits are then written is the business of `Layout`: where plain
notation ends and a power of ten takes over.

## Main definitions

* `Binary`: A natural number times a power of two.
* `shortest`: The digits of a number, and the power of ten behind them.
* `Layout`: The range of plain notation.
* `display`: The text of a number.
-/

namespace SoleRoot

namespace Json

/-- The number `mantissa * 2 ^ exponent`. -/
structure Binary where
  mantissa : Nat
  exponent : Int
  /-- Whether the neighbour below is half as far as the one above. -/
  narrow : Bool
  deriving DecidableEq, Repr

namespace Binary

/-- The number that the bits of a finite double stand for, without its sign. -/
def ofBits (bits : Nat) : Binary :=
  let field := bits / Nat.pow 2 52 % Nat.pow 2 11
  let fraction := bits % Nat.pow 2 52
  if field = 0 then ⟨fraction, -1074, false⟩
  else ⟨Nat.pow 2 52 + fraction, Int.ofNat field - 1075, fraction = 0 && 1 < field⟩

end Binary

/-- The number `n * 2 ^ p / 10 ^ e` as a numerator over a denominator. -/
def ratio (n : Nat) (p e : Int) : Nat × Nat :=
  (n * Nat.pow 2 p.toNat * Nat.pow 10 (-e).toNat, Nat.pow 2 (-p).toNat * Nat.pow 10 e.toNat)

/-- How many digits a number has before the point; zero or less counts the
    zeros behind the point that come before its first digit. -/
def magnitude (b : Binary) : Int :=
  let (n, d) := ratio b.mantissa b.exponent 0
  if d ≤ n then Int.ofNat (Nat.toDigits 10 (n / d)).length
  else
    match (List.range 400).find? fun t => d ≤ n * Nat.pow 10 t with
    | some t => 1 - Int.ofNat t
    | none => 0

/-- Whether `digits * 10 ^ e` is nearer to a number than to its neighbours. A
    point half way belongs to the number with the even mantissa. -/
def standsFor (b : Binary) (digits : Nat) (e : Int) : Bool :=
  let (low, d) := ratio (4 * b.mantissa - (if b.narrow then 1 else 2)) (b.exponent - 2) e
  let (high, _) := ratio (4 * b.mantissa + 2) (b.exponent - 2) e
  if b.mantissa % 2 = 0 then low ≤ digits * d && digits * d ≤ high
  else low < digits * d && digits * d < high

/-- The digits, in units of `10 ^ e`, that stand for a number, if there are any;
    the nearer of two, and the even of two as near. -/
def digitsAt? (b : Binary) (e : Int) : Option Nat :=
  let (n, d) := ratio b.mantissa b.exponent e
  let floor := n / d
  match standsFor b floor e, standsFor b (floor + 1) e with
  | true, true =>
    let twice := 2 * (n - floor * d)
    some (if twice < d ∨ (twice = d ∧ floor % 2 = 0) then floor else floor + 1)
  | true, false => some floor
  | false, true => some (floor + 1)
  | false, false => none

/-- Digits in which a zero at the end counts for the power of ten behind them.
    A nearest number can be the power of ten above all numbers with so many
    digits, and it has one such zero. -/
def carryZero (digits : Nat) (e : Int) : Nat × Int :=
  if digits % 10 = 0 then (digits / 10, e + 1) else (digits, e)

/-- The fewest digits that stand for a number, and the power of ten behind
    them. Seventeen are always enough. -/
def shortest (b : Binary) : Nat × Int :=
  let m := magnitude b
  let found := (List.range 17).findSome? fun (i : Nat) =>
    let e := m - Int.ofNat (i + 1)
    (digitsAt? b e).map (carryZero · e)
  found.getD (0, 0)

/-- The range of plain notation, in digits before the point. -/
structure Layout where
  least : Int
  most : Int
  deriving DecidableEq, Repr

/-- The layout of numbers in messages and in written values: plain up to
    sixteen digits before the point and up to four zeros behind it. -/
def layout : Layout :=
  ⟨-4, 16⟩

/-- Digits with a power of ten behind them, by a layout. -/
def displayDigits (l : Layout) (digits : List Char) (e : Int) : List Char :=
  let m := Int.ofNat digits.length + e
  let zeros (n : Int) := List.replicate n.toNat '0'
  if 0 ≤ e ∧ m ≤ l.most then digits ++ zeros e ++ ['.', '0']
  else if 0 < m ∧ m ≤ l.most then digits.take m.toNat ++ '.' :: digits.drop m.toNat
  else if l.least ≤ m ∧ m ≤ 0 then ['0', '.'] ++ zeros (-m) ++ digits
  else
    let power := (toString (m - 1)).toList
    match digits with
    | [d] => d :: 'e' :: power
    | digits => digits.take 1 ++ '.' :: digits.drop 1 ++ 'e' :: power

/-- The text of a finite double. -/
def display (x : Float) : List Char :=
  let bits := x.toBits.toNat
  let sign := if Nat.pow 2 63 ≤ bits then ['-'] else []
  let b := Binary.ofBits (bits % Nat.pow 2 63)
  if b.mantissa = 0 then sign ++ ['0', '.', '0']
  else
    let (digits, e) := shortest b
    sign ++ displayDigits layout (Nat.toDigits 10 digits) e

end Json

end SoleRoot

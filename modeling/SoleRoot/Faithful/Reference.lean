import SoleRoot.Text.Bytes

/-!
# References in Strict Markup

The check that every ampersand of a text or of an attribute value starts a
reference.

Strict markup knows five names and the numbered characters. The text itself is
kept as written, so nothing is decoded here: `check` only says whether decoding
would succeed, and at which byte and why not. A name runs from the ampersand to
the next semicolon; if another ampersand or the end comes first, the reference
is unterminated.

## Main definitions

* `NumberFault`, `ReferenceFault`: What can be wrong with a reference.
* `readNumber`: The value of the digits of a numbered character.
* `check`: The first fault of a text, if it has one.
-/

namespace SoleRoot

namespace Faithful

/-- What can be wrong with the number of a character. -/
inductive NumberFault where
  /-- The number has a sign. -/
  | sign
  /-- There are no digits. -/
  | empty
  /-- A character is no digit. -/
  | digit
  /-- The number needs more than 32 bits. -/
  | overflow
  /-- The number is zero. -/
  | zero
  /-- No character has the number. -/
  | codepoint (number : Nat)
  deriving DecidableEq, Repr

namespace NumberFault

/-- The cause in words. -/
def message : NumberFault → String
  | sign => "unexpected number sign"
  | empty => "cannot parse integer from empty string"
  | digit => "invalid digit found in string"
  | overflow => "number too large to fit in target type"
  | zero => "0x0 character is not permitted in XML"
  | codepoint number => s!"`{number}` is not a valid codepoint"

end NumberFault

/-- What can be wrong with a reference. Positions count bytes in the checked
    text. -/
inductive ReferenceFault where
  /-- No semicolon follows the ampersand at `start`; the text ends at `stop`. -/
  | unterminated (start stop : Nat)
  /-- The number of a numbered character is wrong. -/
  | number (fault : NumberFault)
  /-- The name from `start` to `stop` is not one of the five. -/
  | unknown (start stop : Nat) (name : String)
  deriving DecidableEq, Repr

namespace ReferenceFault

/-- The cause in words. -/
def message : ReferenceFault → String
  | unterminated start stop =>
    s!"Error while escaping character at range {start}..{stop}: Cannot find ';' after '&'"
  | number fault => s!"invalid character reference: {fault.message}"
  | unknown start stop name => s!"at {start}..{stop}: unrecognized entity `{name}`"

end ReferenceFault

/-- The value of a digit, in a base of at most sixteen. -/
def digitValue? (base : Nat) (c : Char) : Option Nat :=
  let value? :=
    if '0' ≤ c ∧ c ≤ '9' then some (c.toNat - '0'.toNat)
    else if 'a' ≤ c ∧ c ≤ 'f' then some (c.toNat - 'a'.toNat + 10)
    else if 'A' ≤ c ∧ c ≤ 'F' then some (c.toNat - 'A'.toNat + 10)
    else none
  value?.filter (· < base)

/-- Digits read into an accumulator that must stay below 2 ^ 32. -/
def readDigits (base : Nat) : (value : Nat) → List Char → Except NumberFault Nat
  | value, [] => .ok value
  | value, c :: cs =>
    match digitValue? base c with
    | none => .error .digit
    | some d =>
      if value * base + d < 2 ^ 32 then readDigits base (value * base + d) cs
      else .error .overflow

/-- A number of 32 bits without a sign. -/
def readNumber (base : Nat) : List Char → Except NumberFault Nat
  | [] => .error .empty
  | c :: cs => if c = '+' ∨ c = '-' then .error .sign else readDigits base 0 (c :: cs)

/-- The check of what follows the number sign: a number of a character other
    than zero. A small `x` announces base sixteen. -/
def checkNumber (digits : List Char) : Except NumberFault Unit := do
  let number ← match digits with
    | 'x' :: digits => readNumber 16 digits
    | digits => readNumber 10 digits
  if number = 0 then .error .zero
  else if number.isValidChar then .ok ()
  else .error (.codepoint number)

/-- The names of strict markup. -/
def knownNames : List String :=
  ["lt", "gt", "amp", "apos", "quot"]

/-- The check of the name between an ampersand at `start` and its semicolon. -/
def checkName (start : Nat) (name : List Char) : Except ReferenceFault Unit :=
  match name with
  | '#' :: digits => (checkNumber digits).mapError .number
  | _ =>
    if String.ofList name ∈ knownNames then .ok ()
    else .error (.unknown (start + 1) (start + 1 + Text.byteSize name) (String.ofList name))

/-- The check of the characters from byte `start` on, of a text of `stop`
    bytes. -/
def checkFrom (stop : Nat) : (start : Nat) → List Char → Except ReferenceFault Unit
  | _, [] => .ok ()
  | start, c :: cs =>
    if c = '&' then
      match cs.dropWhile (fun c => c ≠ '&' && c ≠ ';') with
      | ';' :: _ => do
        checkName start (cs.takeWhile (fun c => c ≠ '&' && c ≠ ';'))
        checkFrom stop (start + c.utf8Size) cs
      | _ => .error (.unterminated start stop)
    else checkFrom stop (start + c.utf8Size) cs

/-- The check that every ampersand of a text starts a reference. -/
def check (cs : List Char) : Except ReferenceFault Unit :=
  checkFrom (Text.byteSize cs) 0 cs

end Faithful

end SoleRoot

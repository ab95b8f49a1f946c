import SoleRoot.Json.Numeral
import SoleRoot.Json.Text

/-!
# Skipping Values

Looking through a value that nobody asks for.

The brackets that are open are kept in a list, innermost first, so a value may
be nested to any depth. One round of `skipFrom` looks through a word, a number
or a string, or opens a bracket, and then closes what comes to its end; if a
bracket is still open after that, another value has to follow, behind its key
if the bracket is an object's.

## Main definitions

* `Bracket`: What a bracket is around.
* `closeBrackets`: The brackets that are still open behind a value.
* `skipValue`: The cursor behind a value.
-/

namespace SoleRoot

namespace Json

/-- What a bracket is around. -/
inductive Bracket where
  | list
  | object
  deriving DecidableEq, Repr

namespace Bracket

/-- The character that closes the bracket. -/
def close : Bracket → Char
  | list => ']'
  | object => '\x7d'

/-- What is wrong if the text ends inside the bracket. -/
def endCause : Bracket → Cause
  | list => .endOfList
  | object => .endOfObject

/-- What is wrong if neither a comma nor the end comes behind a value. -/
def commaCause : Bracket → Cause
  | list => .expectedListComma
  | object => .expectedObjectComma

end Bracket

/-- Close brackets, innermost first, until one goes on. Behind a value it goes
    on with a comma, and behind its opening with a value or a key. -/
def closeBrackets (behindValue : Bool) :
    List Bracket → Cursor → Except Fault (List Bracket × Cursor)
  | [], c => .ok ([], c)
  | b :: bs, c =>
    let c := c.skipSpace
    if c.peek? = some ',' ∧ behindValue then .ok (b :: bs, c.next)
    else if c.peek? = some b.close then closeBrackets true bs c.next
    else if c.rest.isEmpty ∨ behindValue then c.failAtNext b.endCause b.commaCause
    else .ok (b :: bs, c)

/-- Look through a key and the colon behind it. -/
def skipKey (c : Cursor) : Except Fault Cursor := do
  let c ← c.readMark '"' .endOfObject .keyNotString
  let c ← skipText c
  c.readMark ':' .endOfObject .expectedColon

/-- Look through a word, a number or a string, or open a bracket. The flag says
    whether a value is behind the cursor now. -/
def skipStart (enclosing : List Bracket) (c : Cursor) :
    Except Fault (Bool × List Bracket × Cursor) :=
  let c := c.skipSpace
  let value (r : Except Fault Cursor) := r.map fun c => (true, enclosing, c)
  match c.peek? with
  | none => c.fail .endOfValue
  | some x =>
    if x = 'n' then value (Cursor.readWord ['n', 'u', 'l', 'l'] c)
    else if x = 't' then value (Cursor.readWord ['t', 'r', 'u', 'e'] c)
    else if x = 'f' then value (Cursor.readWord ['f', 'a', 'l', 's', 'e'] c)
    else if x = '"' then value (skipText c.next)
    else if x = '-' ∨ x.isDigit then value (skipNumber c)
    else if x = '[' then .ok (false, .list :: enclosing, c.next)
    else if x = '\x7b' then .ok (false, .object :: enclosing, c.next)
    else c.failAhead .expectedValue

/-- Look through values until no bracket is open, in a number of rounds. -/
def skipFrom : Nat → List Bracket → Cursor → Except Fault Cursor
  | 0, _, c => c.fail .endOfValue
  | rounds + 1, enclosing, c => do
    let (behindValue, enclosing, c) ← skipStart enclosing c
    match ← closeBrackets behindValue enclosing c with
    | ([], c) => .ok c
    | (.list :: bs, c) => skipFrom rounds (.list :: bs) c
    | (.object :: bs, c) => do
      let c ← skipKey c
      skipFrom rounds (.object :: bs) c

/-- Look through a value. Each round takes at least one character. -/
def skipValue (c : Cursor) : Except Fault Cursor :=
  skipFrom (c.rest.length + 1) [] c

end Json

end SoleRoot

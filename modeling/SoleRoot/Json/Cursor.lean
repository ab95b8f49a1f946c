import SoleRoot.Json.Fault

/-!
# Cursors

A place in a structured text from which reading goes on.

A cursor knows what is left and how many bytes were looked at to get there. A
fault is reported in one of two ways: at the cursor, when what was read is at
fault, or one byte ahead of it, when the next character is and had to be looked
at. At the end of the text there is no byte to look at, and the two agree.

## Main definitions

* `Cursor`: What is left, and how far in it is.
* `Reader`: A function that reads a value and says where to go on.
* `Cursor.fail`, `Cursor.failAhead`: The two ways to report a fault.
* `Cursor.skipSpace`: The cursor behind white space.
* `Cursor.readWord`: Reading a word letter by letter.

## Theorems

* `length_rest_next`: Moving on leaves no more text.
-/

namespace SoleRoot

namespace Json

/-- A place in a text. -/
structure Cursor where
  offset : Nat := 0
  rest : List Char
  deriving DecidableEq, Repr

/-- A function that reads a value from a text. -/
abbrev Reader (α : Type) := Cursor → Except Fault (α × Cursor)

/-- White space between the parts of a value. -/
def isSpace (c : Char) : Bool :=
  c = ' ' || c = '\n' || c = '\t' || c = '\r'

namespace Cursor

/-- The start of a text. -/
def ofText (s : String) : Cursor :=
  ⟨0, s.toList⟩

/-- The next character, if there is one. -/
def peek? (c : Cursor) : Option Char :=
  c.rest.head?

/-- The cursor behind the next character. -/
def next (c : Cursor) : Cursor :=
  match c.rest with
  | [] => c
  | x :: xs => ⟨c.offset + x.utf8Size, xs⟩

/-- The cursor behind some characters, which are what the text goes on with. -/
def behind (c : Cursor) (read rest : List Char) : Cursor :=
  ⟨c.offset + Text.byteSize read, rest⟩

/-- A fault of what was read. -/
def fail {α : Type} (c : Cursor) (cause : Cause) : Except Fault α :=
  .error ⟨cause, c.offset⟩

/-- A fault of what comes next. -/
def failAhead {α : Type} (c : Cursor) (cause : Cause) : Except Fault α :=
  .error ⟨cause, if c.rest.isEmpty then c.offset else c.offset + 1⟩

/-- A fault of what comes next, with a cause of its own for the end. -/
def failAtNext {α : Type} (c : Cursor) (atEnd otherwise : Cause) : Except Fault α :=
  c.failAhead (if c.rest.isEmpty then atEnd else otherwise)

/-- The cursor behind white space. -/
def skipSpace (c : Cursor) : Cursor :=
  c.behind (c.rest.takeWhile isSpace) (c.rest.dropWhile isSpace)

/-- The cursor behind white space and, if it comes next, a closing bracket. -/
def skipClosing (close : Char) (c : Cursor) : Cursor :=
  let c := c.skipSpace
  if c.peek? = some close then c.next else c

/-- Read a word. -/
def readWord : List Char → Cursor → Except Fault Cursor
  | [], c => .ok c
  | w :: ws, c =>
    if c.peek? = some w then readWord ws c.next else c.failAtNext .endOfValue .expectedWord

/-- Read one character that has to come next, behind white space. -/
def readMark (mark : Char) (atEnd otherwise : Cause) (c : Cursor) : Except Fault Cursor :=
  let c := c.skipSpace
  if c.peek? = some mark then .ok c.next else c.failAtNext atEnd otherwise

theorem length_rest_next (c : Cursor) : c.next.rest.length = c.rest.length - 1 := by
  unfold next
  split <;> simp_all

end Cursor

end Json

end SoleRoot

import SoleRoot.Text.Bytes

/-!
# Source Locations

Where in a text something went wrong, as people count: lines and columns from
one, columns in characters.

A location is reached by walking over the characters before it. A line feed
moves to the start of the next line and anything else one column on, so the
location of an offset is a fold over the characters that lie before the offset.
An offset past the end stands for the end, and one inside a character for the
start of that character; both fall out of taking only whole characters.

## Main definitions

* `Location`: A line and a column.
* `Location.after`: The location behind a character.
* `Location.ofOffset`: The location of a byte offset.
* `Malformed`: What is wrong with a text, and where.
-/

namespace SoleRoot

/-- A place in a text. Lines and columns count from one. -/
structure Location where
  line : Nat := 1
  column : Nat := 1
  deriving DecidableEq, Repr

namespace Location

/-- The location behind a character. Only a line feed ends a line. -/
def after (l : Location) (c : Char) : Location :=
  if c = '\n' then ⟨l.line + 1, 1⟩ else ⟨l.line, l.column + 1⟩

/-- The location behind a text that starts at line one, column one. -/
def behind (cs : List Char) : Location :=
  cs.foldl after {}

/-- The location of a byte offset: behind the characters that end at or before
    the offset. -/
def ofOffset (source : List Char) (offset : Nat) : Location :=
  behind (Text.within offset source)

/-- A location as `line:column`. -/
def display (l : Location) : String :=
  s!"{l.line}:{l.column}"

end Location

/-- A text that cannot be read: what is wrong, and where. -/
structure Malformed where
  detail : String
  location : Location
  deriving DecidableEq, Repr

namespace Malformed

/-- What is wrong at a byte offset of a text. -/
def atOffset (detail : String) (source : List Char) (offset : Nat) : Malformed :=
  ⟨detail, Location.ofOffset source offset⟩

/-- The message shown to a person. -/
def message (m : Malformed) : String :=
  s!"Malformed markup at {m.location.display}: {m.detail}"

end Malformed

end SoleRoot

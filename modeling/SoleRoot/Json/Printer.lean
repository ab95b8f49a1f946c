import SoleRoot.Json.Value

/-!
# Writing Values

The compact text of a value.

No white space is written. A string has escapes for the quote, the backslash
and the controls only; the five controls with letters of their own are written
by these.

## Main definitions

* `writeString`: A string.
* `Value.write`: A value.
* `Value.compact`: The text of a value.
-/

namespace SoleRoot

namespace Json

/-- A control character by its number. -/
def writeControl (c : Char) : List Char :=
  ['\\', 'u', '0', '0', Nat.digitChar (c.toNat / 16), Nat.digitChar (c.toNat % 16)]

/-- A character of a string. -/
def writeChar (c : Char) : List Char :=
  if c = '"' then ['\\', '"']
  else if c = '\\' then ['\\', '\\']
  else if c = '\x08' then ['\\', 'b']
  else if c = '\x0c' then ['\\', 'f']
  else if c = '\n' then ['\\', 'n']
  else if c = '\r' then ['\\', 'r']
  else if c = '\t' then ['\\', 't']
  else if c.toNat < 32 then writeControl c
  else [c]

/-- A string in quotes. -/
def writeString (s : String) : List Char :=
  '"' :: s.toList.flatMap writeChar ++ ['"']

/-- A boolean. -/
def writeBoolean : Bool → List Char
  | true => ['t', 'r', 'u', 'e']
  | false => ['f', 'a', 'l', 's', 'e']

/-- A number. -/
def Number.write : Number → List Char
  | .integer value => (toString value).toList
  | .float value => display value

mutual

/-- A value. -/
def Value.write : Value → List Char
  | .null => ['n', 'u', 'l', 'l']
  | .boolean value => writeBoolean value
  | .number value => value.write
  | .string value => writeString value
  | .array elements => '[' :: writeElements elements ++ [']']
  | .object members => '\x7b' :: writeMembers members ++ ['\x7d']

/-- The elements of an array, with commas between them. -/
def writeElements : List Value → List Char
  | [] => []
  | [v] => v.write
  | v :: vs => v.write ++ ',' :: writeElements vs

/-- The members of an object, with commas between them. -/
def writeMembers : List (String × Value) → List Char
  | [] => []
  | [(key, v)] => writeString key ++ ':' :: v.write
  | (key, v) :: ms => writeString key ++ ':' :: v.write ++ ',' :: writeMembers ms

end

/-- The compact text of a value. -/
def Value.compact (v : Value) : String :=
  String.ofList v.write

end Json

end SoleRoot

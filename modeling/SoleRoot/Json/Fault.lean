import SoleRoot.Json.Value
import SoleRoot.Markup.Location
import SoleRoot.Text.Quoted

/-!
# Faults of Structured Text

What can be wrong with a text that should hold a value of a certain kind.

A fault is either one of the text, such as a missing comma, or one of what it
says, such as a number where a string is due. Both name the byte up to which
the text was looked at. Lines count from one and columns from zero, in bytes,
so a column is the number of bytes of its line that were looked at.

## Main definitions

* `Kind`: What a value was found to be.
* `Cause`, `Fault`: What is wrong, and where.
* `locate`: The line and the column of a byte offset.
* `Complaint`: A fault with its place in the text.
-/

namespace SoleRoot

namespace Json

/-- What a value was found to be. -/
inductive Kind where
  | null
  | boolean (value : Bool)
  | number (value : Number)
  | string (value : String)
  | sequence
  | map
  deriving Repr

namespace Kind

/-- What a value was found to be, in words. -/
def describe : Kind → String
  | null => "null"
  | boolean value => s!"boolean `{value}`"
  | number (.integer value) => s!"integer `{value}`"
  | number (.float value) => s!"floating point `{String.ofList (display value)}`"
  | string value => "string " ++ Text.quoted value
  | sequence => "sequence"
  | map => "map"

/-- What a value is. -/
def ofValue : Value → Kind
  | .null => null
  | .boolean value => boolean value
  | .number value => number value
  | .string value => string value
  | .array _ => sequence
  | .object _ => map

end Kind

/-- What can be wrong. -/
inductive Cause where
  | endOfValue
  | endOfList
  | endOfObject
  | endOfString
  | expectedColon
  | expectedListComma
  | expectedObjectComma
  | expectedWord
  | expectedValue
  | invalidEscape
  | invalidNumber
  | numberOutOfRange
  | controlCharacter
  | keyNotString
  | loneSurrogate
  | endOfEscape
  | trailingComma
  | trailingCharacters
  | invalidType (found : Kind) (expected : String)
  | invalidLength (given : Nat) (expected : String)
  | unknownVariant (name : String) (known : List String)
  | missingField (name : String)
  | duplicateField (name : String)
  deriving Repr

namespace Cause

/-- What is wrong, in words. -/
def message : Cause → String
  | endOfValue => "EOF while parsing a value"
  | endOfList => "EOF while parsing a list"
  | endOfObject => "EOF while parsing an object"
  | endOfString => "EOF while parsing a string"
  | expectedColon => "expected `:`"
  | expectedListComma => "expected `,` or `]`"
  | expectedObjectComma => "expected `,` or `\x7d`"
  | expectedWord => "expected ident"
  | expectedValue => "expected value"
  | invalidEscape => "invalid escape"
  | invalidNumber => "invalid number"
  | numberOutOfRange => "number out of range"
  | controlCharacter =>
    "control character (\\u0000-\\u001F) found while parsing a string"
  | keyNotString => "key must be a string"
  | loneSurrogate => "lone leading surrogate in hex escape"
  | endOfEscape => "unexpected end of hex escape"
  | trailingComma => "trailing comma"
  | trailingCharacters => "trailing characters"
  | invalidType found expected => s!"invalid type: {found.describe}, expected {expected}"
  | invalidLength given expected => s!"invalid length {given}, expected {expected}"
  | unknownVariant name known =>
    s!"unknown variant `{name}`, expected " ++
      " or ".intercalate (known.map fun k => "`" ++ k ++ "`")
  | missingField name => s!"missing field `{name}`"
  | duplicateField name => s!"duplicate field `{name}`"

end Cause

/-- What is wrong, and the byte up to which the text was looked at. -/
structure Fault where
  cause : Cause
  offset : Nat
  deriving Repr

/-- The line of a byte offset, and the number of bytes before it on its line. -/
def locate (source : List Char) (offset : Nat) : Location :=
  let before := Text.within offset source
  let line := before.reverse.takeWhile (· ≠ '\n')
  ⟨before.count '\n' + 1, offset + Text.byteSize line - Text.byteSize before⟩

/-- A fault with its place in the text. -/
structure Complaint where
  message : String
  location : Location
  deriving DecidableEq, Repr

namespace Fault

/-- The fault with its place in the text. -/
def toComplaint (source : List Char) (f : Fault) : Complaint :=
  let place := locate source f.offset
  ⟨f.cause.message ++ s!" at line {place.line} column {place.column}", place⟩

end Fault

end Json

end SoleRoot

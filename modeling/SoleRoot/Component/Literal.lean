/-!
# String Literals of Scripts

A text as a string literal of a script, between single quotes.

A backslash goes before what would end the literal or be taken for an escape.
The four characters that end a line in a script have escapes of their own,
because a literal may not run over a line's end.

## Main definitions

* `scriptLiteral`: A text as a literal.
-/

namespace SoleRoot

/-- A character inside a literal. -/
def scriptLiteralChar (c : Char) : List Char :=
  if c = '\\' then ['\\', '\\']
  else if c = '\'' then ['\\', '\'']
  else if c = '\n' then ['\\', 'n']
  else if c = '\r' then ['\\', 'r']
  else if c = '\u2028' then ['\\', 'u', '2', '0', '2', '8']
  else if c = '\u2029' then ['\\', 'u', '2', '0', '2', '9']
  else [c]

/-- The characters of a text as a literal. -/
def writeScriptLiteral (cs : List Char) : List Char :=
  '\'' :: cs.flatMap scriptLiteralChar ++ ['\'']

/-- A text as a string literal of a script. -/
def scriptLiteral (s : String) : String :=
  String.ofList (writeScriptLiteral s.toList)

end SoleRoot

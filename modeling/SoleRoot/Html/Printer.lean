import SoleRoot.Markup.Node

/-!
# Writing HTML

The text of a tree as HTML, in one spelling.

Every attribute has double quotes and one space before it, and every element an
end tag unless it can hold nothing. Text is escaped where it could be taken for
markup, and in attributes where it could end the value. The text of a few
elements is not markup to a reader, so directly inside them it is written as it
is; a reader would not decode it. Which elements these are is a matter of their
names alone.

## Main definitions

* `voidNames`, `rawNames`: The names with rules of their own.
* `escapeText`, `escapeValue`: Text and values with their escapes.
* `startTag`: A start tag.
* `write`, `writeAll`: The characters of a node and of a list of nodes.

## Theorems

* `writeAll_eq_flatMap`: The nodes of a list are written one by one.
-/

namespace SoleRoot

namespace Html

/-- The elements that can hold nothing. -/
def voidNames : List String :=
  ["area", "base", "br", "col", "embed", "hr", "img", "input", "link", "meta", "source", "track",
    "wbr"]

/-- The elements whose text is no markup. -/
def rawNames : List String :=
  ["script", "style", "xmp", "iframe", "noembed", "noframes", "plaintext", "noscript"]

/-- A character of a text, escaped. -/
def escapeTextChar (c : Char) : List Char :=
  if c = '&' then ['&', 'a', 'm', 'p', ';']
  else if c = '<' then ['&', 'l', 't', ';']
  else if c = '>' then ['&', 'g', 't', ';']
  else [c]

/-- A character of an attribute value, escaped. -/
def escapeValueChar (c : Char) : List Char :=
  if c = '"' then ['&', 'q', 'u', 'o', 't', ';'] else escapeTextChar c

/-- A text with its escapes. -/
def escapeText (cs : List Char) : List Char :=
  cs.flatMap escapeTextChar

/-- An attribute value with its escapes. -/
def escapeValue (cs : List Char) : List Char :=
  cs.flatMap escapeValueChar

/-- An attribute with the space before it. -/
def writeAttribute (a : SoleRoot.Attribute) : List Char :=
  ' ' :: a.name.toList ++ ['=', '"'] ++ escapeValue a.value.toList ++ ['"']

/-- A start tag up to the mark that ends it. -/
def startTag (t : Tag) : List Char :=
  '<' :: t.name.toList ++ t.attributes.flatMap writeAttribute

/-- An end tag. -/
def endTag (t : Tag) : List Char :=
  '<' :: '/' :: t.name.toList ++ ['>']

/-- A comment, its content as it is. -/
def writeComment (content : String) : List Char :=
  ['<', '!', '-', '-'] ++ content.toList ++ ['-', '-', '>']

mutual

/-- The characters of a node. `raw` says whether text is no markup here. -/
def write (raw : Bool) : Node → List Char
  | .element tag children =>
    if voidNames.contains tag.name then startTag tag ++ ['>']
    else
      startTag tag ++ '>' :: writeAll (rawNames.contains tag.name) children ++ endTag tag
  | .text content => if raw then content.toList else escapeText content.toList
  | .cdata content => escapeText content.toList
  | .comment content => writeComment content

/-- The characters of a list of nodes, one behind the other. -/
def writeAll (raw : Bool) : List Node → List Char
  | [] => []
  | n :: ns => write raw n ++ writeAll raw ns

end

theorem writeAll_eq_flatMap (raw : Bool) (ns : List Node) :
    writeAll raw ns = ns.flatMap (write raw) := by
  induction ns with
  | nil => rw [writeAll, List.flatMap_nil]
  | cons n ns ih => rw [writeAll, ih, List.flatMap_cons]

end Html

end SoleRoot

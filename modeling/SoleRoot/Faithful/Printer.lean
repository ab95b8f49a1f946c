import SoleRoot.Markup.Node
import SoleRoot.Faithful.Spelling

/-!
# Writing Faithfully

The text of a tree, with every recorded spelling repeated.

Nothing is escaped: texts, values and comments of a faithfully read tree are
kept as they stood in the source, so writing them raw gives the source back. A
tree that was put together by other means is written just as raw. An element
that was read from one self-closing tag is written as one again, unless it has
been given children since.

## Main definitions

* `write`, `writeAll`: The characters of a node and of a list of nodes.
* `startTag`: A start tag up to the mark that ends it.
* `endTag`: An end tag.
-/

namespace SoleRoot

namespace Faithful

/-- An attribute with the white space before it. -/
def writeAttribute (a : Attribute) : List Char :=
  spelling [' '] a.leading ++ a.name.toList ++ spelling ['='] a.separator ++
    a.quote.toChar :: a.value.toList ++ [a.quote.toChar]

/-- A start tag up to the mark that ends it. -/
def startTag (t : Tag) : List Char :=
  '<' :: t.name.toList ++ t.attributes.flatMap writeAttribute ++ spelling [] t.trailing

/-- An end tag. -/
def endTag (t : Tag) : List Char :=
  '<' :: '/' :: t.name.toList ++ spelling [] t.endTrailing ++ ['>']

/-- A comment, its content as it is. -/
def writeComment (content : String) : List Char :=
  ['<', '!', '-', '-'] ++ content.toList ++ ['-', '-', '>']

/-- A CDATA section, its content as it is. -/
def writeCdata (content : String) : List Char :=
  ['<', '!', '[', 'C', 'D', 'A', 'T', 'A', '['] ++ content.toList ++ [']', ']', '>']

mutual

/-- The characters of a node. -/
def write : Node → List Char
  | .element tag children =>
    if tag.selfClosing && children.isEmpty then startTag tag ++ ['/', '>']
    else startTag tag ++ '>' :: writeAll children ++ endTag tag
  | .text content => content.toList
  | .comment content => writeComment content
  | .cdata content => writeCdata content

/-- The characters of a list of nodes, one behind the other. -/
def writeAll : List Node → List Char
  | [] => []
  | n :: ns => write n ++ writeAll ns

end

end Faithful

end SoleRoot

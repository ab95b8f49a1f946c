import SoleRoot.Text.Space

/-!
# Markup Trees

The tree that markup stands for, and that both dialects read and write.

A node is an element, a text, a comment or a CDATA section. What an element's
tags say is a `Tag`: its name and attributes, and the spelling that a faithful
writer has to repeat. Spelling is recorded only where it departs from the
usual: an attribute with no `leading` stands behind one space, one with no
`separator` has a bare equals sign, and a tag with no `trailing` ends at once.
A permissive reader fills in none of these, so the same tree serves both.

`Element` is a tag with children, the one kind of node that has a name to look
up; `Node.element` holds the same two things, and `Element.toNode` goes between
them.

## Main definitions

* `Mode`: The two dialects.
* `Quote`, `Attribute`, `Tag`: What a start tag and an end tag say.
* `Node`, `Element`: The tree.
* `Document`: A list of nodes and the dialect it was read in.
* `Node.isBlankText`: A text of white space only.
-/

namespace SoleRoot

/-- The dialects: `permissive` reads any text as HTML and normalises it,
    `faithful` reads well-formed markup and keeps its spelling. -/
inductive Mode where
  | permissive
  | faithful
  deriving DecidableEq, Repr, Inhabited

namespace Mode

/-- The dialects, in the order in which messages list them. -/
def all : List Mode :=
  [permissive, faithful]

/-- The name of a dialect. -/
def name : Mode → String
  | permissive => "permissive"
  | faithful => "faithful"

/-- The dialect of a name. -/
def ofName? (name : String) : Option Mode :=
  all.find? (·.name == name)

@[simp] theorem ofName?_name (m : Mode) : ofName? m.name = some m := by
  cases m <;> rfl

end Mode

/-- The quote character around an attribute's value. -/
inductive Quote where
  | double
  | single
  deriving DecidableEq, Repr, Inhabited

namespace Quote

/-- The character that opens and closes the value. -/
def toChar : Quote → Char
  | double => '"'
  | single => '\''

/-- The quote that a character is, if it is one. -/
def ofChar? (c : Char) : Option Quote :=
  if c = '"' then some double else if c = '\'' then some single else none

@[simp] theorem ofChar?_toChar (q : Quote) : ofChar? q.toChar = some q := by
  cases q <;> rfl

theorem toChar_of_ofChar? {c : Char} {q : Quote} (h : ofChar? c = some q) : q.toChar = c := by
  simp only [ofChar?] at h
  split at h
  · simp_all [toChar, eq_comm]
  · split at h
    · simp_all [toChar, eq_comm]
    · simp at h

end Quote

/-- An attribute and how it was written. -/
structure Attribute where
  name : String
  value : String
  quote : Quote := .double
  /-- The white space before the name, unless it is one space. -/
  leading : Option String := none
  /-- What stands between name and value, unless it is a bare equals sign. -/
  separator : Option String := none
  deriving DecidableEq, Repr, Inhabited

/-- What an element's tags say. -/
structure Tag where
  name : String
  attributes : List Attribute := []
  /-- Whether the element was written as one self-closing tag. -/
  selfClosing : Bool := false
  /-- White space before the end of the start tag. -/
  trailing : Option String := none
  /-- White space before the end of the end tag. -/
  endTrailing : Option String := none
  deriving DecidableEq, Repr, Inhabited

namespace Tag

/-- The value of the first attribute of a name. -/
def attribute? (t : Tag) (name : String) : Option String :=
  (t.attributes.find? (·.name == name)).map (·.value)

/-- Whether an attribute of a name is present. -/
def hasAttribute (t : Tag) (name : String) : Bool :=
  t.attributes.any (·.name == name)

end Tag

/-- A node of the tree. -/
inductive Node where
  | element (tag : Tag) (children : List Node)
  | text (content : String)
  | comment (content : String)
  | cdata (content : String)
  deriving Repr, Inhabited

/-- A tag with children: the nodes that have a name. -/
structure Element extends Tag where
  children : List Node := []
  deriving Repr, Inhabited

namespace Element

/-- The element as a node. -/
def toNode (e : Element) : Node :=
  .element e.toTag e.children

end Element

namespace Node

/-- The element that a node is, if it is one. -/
def element? : Node → Option Element
  | element tag children => some ⟨tag, children⟩
  | _ => none

/-- Whether a node is an element. -/
def isElement (n : Node) : Bool :=
  n.element?.isSome

/-- Whether a node is a comment. -/
def isComment : Node → Bool
  | comment _ => true
  | _ => false

/-- Whether a node is a text of white space only, the empty text included. -/
def isBlankText : Node → Bool
  | text content => content.toList.all Text.isBlank
  | _ => false

end Node

namespace Element

/-- The children that are elements, in order. -/
def childElements (e : Element) : List Element :=
  e.children.filterMap Node.element?

end Element

/-- The nodes of a text and the dialect they were read in. -/
structure Document where
  mode : Mode
  nodes : List Node := []
  deriving Repr, Inhabited

namespace Document

/-- The number of nodes at the top that are elements. -/
def elementCount (d : Document) : Nat :=
  d.nodes.countP Node.isElement

end Document

end SoleRoot

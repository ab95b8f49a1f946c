import SoleRoot.Html.Token
import SoleRoot.Html.Tree

/-!
# Building HTML Trees

What a reader of HTML remembers between tokens, and the steps that all of its
rules are made of.

The elements that are open form a stack, the innermost first; its last is the
root, which is never closed. New items go into the innermost open element, with
one exception. A table may hold only its parts, so while a rule for tables
hands something over that does not belong there, `fostering` is set, and what
would go into a part of the table goes before the table.

Asking whether an element is open nearly always means open and not hidden:
`Scope.has` walks the stack from the inside and stops at the first element that
hides the rest.

## Main definitions

* `InsertionMode`: What part of a document is being read.
* `Opened`, `Entry`: An open element, and an element to be opened again.
* `Builder`: What is remembered between tokens.
* `Scope.has`: Whether an element is open and not hidden.
* `Builder.insertItem`, `Builder.openElement`: Additions to the tree.
* `Builder.closeThrough`, `Builder.impliedEnds`: Changes to the stack.
-/

namespace SoleRoot

namespace Html

/-- What part of a document is being read. -/
inductive InsertionMode where
  | inBody
  | inText
  | inTable
  | inTableText
  | inCaption
  | inColumnGroup
  | inTableBody
  | inRow
  | inCell
  | inSelect
  | inSelectInTable
  | inTemplate
  deriving DecidableEq, Repr, Inhabited

/-- An element that is open. -/
structure Opened where
  id : Nat
  name : Name
  deriving DecidableEq, Repr, Inhabited

/-- An entry of the list of elements to be opened again: such an element with
    its tag, or a mark that what comes before does not count for now. -/
inductive Entry where
  | mark
  | element (opened : Opened) (tag : TagToken)
  deriving DecidableEq, Repr

namespace Scope

/-- Whether an open element satisfies a condition and is not hidden. -/
def has (s : Scope) (p : Opened → Bool) : List Opened → Bool
  | [] => false
  | o :: os => p o || (!s.endsAt o.name && s.has p os)

end Scope

/-- The root of every tree. -/
def rootElement : Opened :=
  ⟨0, .html "html"⟩

/-- What is remembered between tokens. -/
structure Builder where
  tree : Item := .element rootElement.id rootElement.name [] []
  /-- The number of the next element. -/
  nextId : Nat := 1
  /-- The open elements, the innermost first. -/
  stack : List Opened := [rootElement]
  /-- The elements to be opened again, the latest first. -/
  formatting : List Entry := []
  mode : InsertionMode := .inBody
  /-- The mode to come back to from a text; outside texts that of the body. -/
  returnMode : InsertionMode := .inBody
  /-- The modes of the open templates, the innermost first. -/
  templateModes : List InsertionMode := []
  /-- The form that is open, if any. -/
  form : Option Nat := none
  /-- The text of a table that has not been given a place yet. -/
  pending : List Char := []
  fostering : Bool := false
  reading : Reading := .data
  /-- Whether a line feed that comes next is to be left out. -/
  skipsLineFeed : Bool := false
  deriving Repr, Inhabited

namespace Builder

/-! ## Questions -/

/-- The innermost open element. -/
def current (b : Builder) : Opened :=
  b.stack.head?.getD rootElement

/-- Whether the innermost open element has a name of HTML. -/
def currentIs (b : Builder) (name : String) : Bool :=
  b.current.name.isHtml name

/-- Whether the innermost open element has one of several names of HTML. -/
def currentIsIn (b : Builder) (names : List String) : Bool :=
  b.current.name.isIn names

/-- Whether an element of a name is open and not hidden. -/
def hasInScope (b : Builder) (s : Scope) (name : String) : Bool :=
  s.has (·.name.isHtml name) b.stack

/-- Whether an element of one of several names is open and not hidden. -/
def hasAnyInScope (b : Builder) (s : Scope) (names : List String) : Bool :=
  s.has (·.name.isIn names) b.stack

/-- Whether a template is open. -/
def inTemplate (b : Builder) : Bool :=
  b.stack.any (·.name.isHtml "template")

/-- Whether an element of a number is open. -/
def isOpen (b : Builder) (id : Nat) : Bool :=
  b.stack.any (·.id == id)

/-! ## Additions -/

/-- Where an item for an open element goes. -/
def placeFor (b : Builder) (target : Opened) : Place :=
  if b.fostering && target.name.isIn Name.tableParts then
    match b.stack.find? (·.name.isIn ["table", "template"]) with
    | some o => if o.name.isHtml "table" then .before o.id else .inside o.id
    | none => .inside rootElement.id
  else .inside target.id

/-- An item more. -/
def insertItem (b : Builder) (item : Item) : Builder :=
  { b with tree := b.tree.insert (b.placeFor b.current) item }

/-- A comment more. -/
def insertComment (b : Builder) (content : String) : Builder :=
  b.insertItem (.comment content)

/-- Characters more. -/
def insertText (b : Builder) (content : List Char) : Builder :=
  if content.isEmpty then b else b.insertItem (.text (String.ofList content))

/-- An element more, which is not opened. -/
def insertElement (b : Builder) (name : Name) (attributes : List Attribute) : Builder :=
  { b.insertItem (.element b.nextId name attributes []) with nextId := b.nextId + 1 }

/-- An element more, which is opened. -/
def openNamed (b : Builder) (name : Name) (attributes : List Attribute) : Builder :=
  let o : Opened := ⟨b.nextId, name⟩
  let b := b.insertElement name attributes
  { b with stack := o :: b.stack }

/-- The element of a tag, opened. -/
def openElement (b : Builder) (tag : TagToken) : Builder :=
  b.openNamed (.html tag.name) (Foreign.attributesIn .html tag.attributes)

/-- The element of a tag that holds nothing. -/
def insertVoid (b : Builder) (tag : TagToken) : Builder :=
  b.insertElement (.html tag.name) (Foreign.attributesIn .html tag.attributes)

/-- An element that no tag asked for, opened. -/
def openImplied (b : Builder) (name : String) : Builder :=
  b.openElement { name }

/-- The element of a tag, opened for text that is read in its own way. -/
def openText (b : Builder) (tag : TagToken) (reading : Reading) : Builder :=
  { b.openElement tag with returnMode := b.mode, mode := .inText, reading }

/-! ## Closing -/

/-- The innermost element closed. -/
def pop (b : Builder) : Builder :=
  { b with stack := b.stack.drop 1 }

/-- The elements closed up to and with the innermost that satisfies a
    condition. -/
def closeThrough (b : Builder) (p : Name → Bool) : Builder :=
  { b with stack := (b.stack.dropWhile (!p ·.name)).drop 1 }

/-- The elements closed up to and without the innermost of several names. -/
def closeTo (b : Builder) (names : List String) : Builder :=
  { b with stack := b.stack.dropWhile (!·.name.isIn names) }

/-- The innermost elements closed as long as their end tags may be left out. -/
def impliedEnds (b : Builder) (names : List String) : Builder :=
  { b with stack := b.stack.dropWhile (·.name.isIn names) }

/-- The same without stopping at elements of a name, which stay open. -/
def impliedEndsExcept (b : Builder) (name : String) : Builder :=
  b.impliedEnds (Name.impliedEnds.filter (· != name))

/-- The innermost element of a name closed, with all inside it. -/
def closeNamed (b : Builder) (name : String) : Builder :=
  b.closeThrough (·.isHtml name)

/-- A paragraph closed. -/
def closeParagraph (b : Builder) : Builder :=
  (b.impliedEndsExcept "p").closeNamed "p"

/-- A paragraph closed, if one is open. -/
def endParagraph (b : Builder) : Builder :=
  if b.hasInScope .button "p" then b.closeParagraph else b

/-- An element taken from the stack, wherever it is. -/
def dropOpened (b : Builder) (id : Nat) : Builder :=
  { b with stack := b.stack.filter (·.id != id) }

/-! ## Modes -/

/-- The mode of a choice inside the open elements `os`. -/
def selectMode : List Opened → InsertionMode
  | [] => .inSelect
  | o :: os =>
    if o.name.isHtml "template" then .inSelect
    else if o.name.isHtml "table" then .inSelectInTable
    else selectMode os

/-- The mode that open elements call for. -/
def modeOf (templateModes : List InsertionMode) : List Opened → InsertionMode
  | [] => .inBody
  | [_] => .inBody
  | o :: os =>
    if o.name.isIn ["select"] then selectMode os
    else if o.name.isIn ["td", "th"] then .inCell
    else if o.name.isIn ["tr"] then .inRow
    else if o.name.isIn ["tbody", "thead", "tfoot"] then .inTableBody
    else if o.name.isIn ["caption"] then .inCaption
    else if o.name.isIn ["colgroup"] then .inColumnGroup
    else if o.name.isIn ["table"] then .inTable
    else if o.name.isIn ["template"] then templateModes.head?.getD .inBody
    else modeOf templateModes os

/-- The mode set to what the open elements call for. -/
def resetMode (b : Builder) : Builder :=
  { b with mode := modeOf b.templateModes b.stack }

end Builder

/-- What a rule makes of a token: it is done with, or it is to be looked at
    again. -/
inductive Outcome where
  | done (b : Builder)
  | again (t : Token) (b : Builder)

end Html

end SoleRoot

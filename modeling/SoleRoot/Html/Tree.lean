import SoleRoot.Markup.Node
import SoleRoot.Html.Foreign

/-!
# Growing HTML Trees

The tree that a reader of HTML builds, with a number on each element.

A reader of HTML may come back to any element it has opened, move it, or put
something before it, so elements have to be told apart even where they look the
same. Each carries a number, and the operations find their element by it. They
go over the whole tree and change it at most in one place: a number that does
not occur changes nothing.

Text that is put behind text, at the end of an element or before one, joins it,
so no two texts ever stand side by side because of an insertion.

When the tree is finished the numbers are dropped. An element's attributes are
then stored in the order of their qualified names, of which only the local part
remains, and what is inside a template is not part of the tree.

## Main definitions

* `Item`: A tree with numbered elements.
* `Place`: Where an item is to be put.
* `Item.insert`, `Item.remove`: Putting an item in its place, and taking an
  element out.
* `Item.toNodes`: The finished tree.
-/

namespace SoleRoot

namespace Html

/-- A node of a growing tree. -/
inductive Item where
  | element (id : Nat) (name : Name) (attributes : List Attribute) (children : List Item)
  | text (content : String)
  | comment (content : String)
  deriving Repr, Inhabited

/-- Where an item is to be put. -/
inductive Place where
  /-- Behind the last child of an element. -/
  | inside (id : Nat)
  /-- Before an element. -/
  | before (id : Nat)
  deriving DecidableEq, Repr

namespace Item

/-- Whether an item is the element of a number. -/
def hasId (id : Nat) : Item → Bool
  | element other _ _ _ => other == id
  | _ => false

/-- An item behind its siblings. Text joins the text before it. -/
def attach (item : Item) (siblings : List Item) : List Item :=
  match item, siblings.getLast? with
  | text new, some (text old) => siblings.dropLast ++ [text (old ++ new)]
  | _, _ => siblings ++ [item]

mutual

/-- An item put behind the last child of an element. -/
def append (id : Nat) (item : Item) : Item → Item
  | element other name attributes children =>
    if other = id then element other name attributes (attach item children)
    else element other name attributes (appendAll id item children)
  | text content => text content
  | comment content => comment content

/-- The same in a list of items. -/
def appendAll (id : Nat) (item : Item) : List Item → List Item
  | [] => []
  | i :: is => append id item i :: appendAll id item is

end

mutual

/-- An item put before an element, anywhere below. -/
def insertBelow (id : Nat) (item : Item) : Item → Item
  | element other name attributes children =>
    element other name attributes (insertBefore id item [] children)
  | text content => text content
  | comment content => comment content

/-- An item put before an element of a list or below. `passed` are the items of
    the list before those still to be searched, the last first. -/
def insertBefore (id : Nat) (item : Item) (passed : List Item) : List Item → List Item
  | [] => passed.reverse
  | i :: is =>
    if i.hasId id then attach item passed.reverse ++ i :: is
    else insertBefore id item (insertBelow id item i :: passed) is

end

/-- An item put in its place. -/
def insert (tree : Item) (place : Place) (item : Item) : Item :=
  match place with
  | .inside id => append id item tree
  | .before id => insertBelow id item tree

mutual

/-- The element of a number. -/
def find? (id : Nat) : Item → Option Item
  | element other name attributes children =>
    if other = id then some (element other name attributes children) else findAll? id children
  | _ => none

/-- The same in a list of items. -/
def findAll? (id : Nat) : List Item → Option Item
  | [] => none
  | i :: is => (find? id i).or (findAll? id is)

end

mutual

/-- The tree without an element below its root. -/
def remove (id : Nat) : Item → Item
  | element other name attributes children =>
    element other name attributes (removeAll id children)
  | text content => text content
  | comment content => comment content

/-- The same in a list of items. -/
def removeAll (id : Nat) : List Item → List Item
  | [] => []
  | i :: is => if i.hasId id then removeAll id is else remove id i :: removeAll id is

end

mutual

/-- The tree with other children for an element. -/
def setChildren (id : Nat) (new : List Item) : Item → Item
  | element other name attributes children =>
    if other = id then element other name attributes new
    else element other name attributes (setChildrenAll id new children)
  | text content => text content
  | comment content => comment content

/-- The same in a list of items. -/
def setChildrenAll (id : Nat) (new : List Item) : List Item → List Item
  | [] => []
  | i :: is => setChildren id new i :: setChildrenAll id new is

end

/-- The children of an element. -/
def children : Item → List Item
  | element _ _ _ children => children
  | _ => []

/-- The children of the element of a number. -/
def childrenOf (id : Nat) (tree : Item) : List Item :=
  ((find? id tree).map children).getD []

/-- The attributes of a finished element. -/
def finishAttributes (attributes : List Attribute) : List SoleRoot.Attribute :=
  (attributes.mergeSort Attribute.precedes).map fun a => { name := a.name, value := a.value }

mutual

/-- The finished node of an item. -/
def toNode : Item → Node
  | element _ name attributes children =>
    .element { name := name.localName, attributes := finishAttributes attributes }
      (if name.isHtml "template" then [] else toNodes children)
  | text content => .text content
  | comment content => .comment content

/-- The finished nodes of a list of items. -/
def toNodes : List Item → List Node
  | [] => []
  | i :: is => toNode i :: toNodes is

end

end Item

end Html

end SoleRoot

import SoleRoot.Html.Builder

/-!
# Formatting Elements

Elements such as `b` and `a`, which text carries on from one block to the next.

A formatting element that is closed by the end of what it stands in is opened
again as soon as text follows, so a list remembers which elements are to be
opened again. At most three alike are kept, and a mark hides those before it
while a cell, a caption or the like is read.

An end tag for a formatting element may come while blocks are open inside it.
Then `adopt` rearranges the tree: the outermost block inside is taken out, the
elements between are copied around it, and a copy of the formatting element
takes over what the block holds.

## Main definitions

* `Builder.reopenFormatting`: Opens again what is to be opened again.
* `Builder.openFormatting`: Opens a formatting element and remembers it.
* `Builder.closeOther`: The effect of an end tag without rules of its own.
* `Builder.adopt`: The effect of a formatting element's end tag.
-/

namespace SoleRoot

namespace Html

namespace Entry

/-- Whether an entry is not a mark. -/
def isElement : Entry → Bool
  | mark => false
  | element _ _ => true

/-- Whether an entry is the element of a number. -/
def hasId (id : Nat) : Entry → Bool
  | mark => false
  | element o _ => o.id == id

/-- Whether an entry's tag is like another: same name, same attributes in any
    order. -/
def isLike (tag : TagToken) : Entry → Bool
  | mark => false
  | element _ other => other.name == tag.name && other.attributes.isPerm tag.attributes

end Entry

namespace Builder

/-- A mark on the list of elements to be opened again. -/
def markFormatting (b : Builder) : Builder :=
  { b with formatting := .mark :: b.formatting }

/-- The list back to what it was before the last mark. -/
def clearFormatting (b : Builder) : Builder :=
  { b with formatting := (b.formatting.dropWhile Entry.isElement).drop 1 }

/-- The list without an element. -/
def dropFormatting (b : Builder) (id : Nat) : Builder :=
  { b with formatting := b.formatting.filter (!·.hasId id) }

/-- A formatting element opened and put on the list. -/
def openEntry (b : Builder) (tag : TagToken) : Builder :=
  let o : Opened := ⟨b.nextId, .html tag.name⟩
  let b := b.openElement tag
  { b with formatting := .element o tag :: b.formatting }

/-- Whether an entry is an element that is not open. -/
def isClosed (b : Builder) : Entry → Bool
  | .mark => false
  | .element o _ => !b.isOpen o.id

/-- The latest entries that are not open, opened again in their order. -/
def reopenFormatting (b : Builder) : Builder :=
  let closed := b.formatting.takeWhile b.isClosed
  closed.reverse.foldl
    (fun b e =>
      match e with
      | .mark => b
      | .element _ tag => b.openEntry tag)
    { b with formatting := b.formatting.drop closed.length }

/-- The list without its earliest entry behind the last mark that is like a
    tag, if there are three. -/
def limitFormatting (b : Builder) (tag : TagToken) : Builder :=
  match (b.formatting.takeWhile Entry.isElement).filter (·.isLike tag) with
  | [_, _, .element o _] => b.dropFormatting o.id
  | _ => b

/-- A formatting element opened and remembered. -/
def openFormatting (b : Builder) (tag : TagToken) : Builder :=
  (b.limitFormatting tag).openEntry tag

/-- The stack without the innermost element of a name and all inside it, unless
    a special element comes first. -/
def stackWithout? (name : String) : List Opened → Option (List Opened)
  | [] => none
  | o :: os =>
    if o.name.isHtml name then some os
    else if o.name.isSpecial then none
    else stackWithout? name os

/-- The effect of an end tag that has no rules of its own. -/
def closeOther (b : Builder) (name : String) : Builder :=
  { b with stack := (stackWithout? name b.stack).getD b.stack }

/-- The latest entry behind the last mark whose tag has a name. -/
def findFormatting? (b : Builder) (name : String) : Option (Opened × TagToken) :=
  (b.formatting.takeWhile Entry.isElement).findSome? fun
    | .mark => none
    | .element o tag => if tag.name == name then some (o, tag) else none

/-- The tag of an element on the list. -/
def formattingTag? (b : Builder) (id : Nat) : Option TagToken :=
  b.formatting.findSome? fun
    | .mark => none
    | .element o tag => if o.id == id then some tag else none

/-- What is in hand while the elements between a formatting element and a block
    are copied. -/
structure Adoption where
  builder : Builder
  /-- The block inside the copies made so far. -/
  item : Item
  /-- The first copy that was made. -/
  first : Option Nat := none
  /-- The copies, the last made first. -/
  copies : List Opened := []

/-- One element between passed by. It is copied around the item if it is on the
    list and among the innermost three; if not, it is off the list and off the
    stack. -/
def Adoption.pass (a : Adoption) (index : Nat) (node : Opened) : Adoption :=
  let b := a.builder
  match b.formattingTag? node.id with
  | none => a
  | some tag =>
    if 3 ≤ index then { a with builder := b.dropFormatting node.id }
    else
      let copy : Opened := ⟨b.nextId, .html tag.name⟩
      let formatting := b.formatting.map fun e =>
        if e.hasId node.id then .element copy tag else e
      { builder := { b with nextId := b.nextId + 1, formatting }
        item := .element copy.id copy.name (Foreign.attributesIn .html tag.attributes) [a.item]
        first := a.first.or (some copy.id)
        copies := copy :: a.copies }

/-- All elements between passed by, the innermost first. -/
def Adoption.passAll (a : Adoption) (index : Nat) : List Opened → Adoption
  | [] => a
  | node :: nodes => (a.pass index node).passAll (index + 1) nodes

/-- The list with an entry put right behind an element. -/
def insertEntryAfter (id : Nat) (entry : Entry) (formatting : List Entry) : List Entry :=
  formatting.flatMap fun e => if e.hasId id then [entry, e] else [e]

/-- The block adopted. The stack consists of `inner`, the block, `between`, the
    formatting element and `outer`. -/
def adoptBlock (b : Builder) (formatting : Opened) (tag : TagToken) (inner : List Opened)
    (block : Opened) (between outer : List Opened) : Builder :=
  let copy : Opened := ⟨b.nextId, .html tag.name⟩
  let wrapper : Item :=
    .element copy.id copy.name (Foreign.attributesIn .html tag.attributes)
      (b.tree.childrenOf block.id)
  let item := ((b.tree.find? block.id).getD wrapper).setChildren block.id [wrapper]
  let start := { b with nextId := b.nextId + 1, tree := b.tree.remove block.id }
  let a := Adoption.passAll { builder := start, item } 0 between
  let place := a.builder.placeFor (outer.head?.getD rootElement)
  let entry : Entry := .element copy tag
  let list := a.builder.formatting
  { a.builder with
    tree := a.builder.tree.insert place a.item
    formatting :=
      match a.first with
      | some id => (insertEntryAfter id entry list).filter (!·.hasId formatting.id)
      | none => list.map fun e => if e.hasId formatting.id then entry else e
    stack := inner ++ copy :: block :: a.copies.reverse ++ outer }

/-- One round of the adoption; the second part says whether another follows. -/
def adoptOnce (b : Builder) (name : String) : Builder × Bool :=
  match b.findFormatting? name with
  | none => (b.closeOther name, false)
  | some (formatting, tag) =>
    if !b.isOpen formatting.id then (b.dropFormatting formatting.id, false)
    else if !Scope.general.has (·.id == formatting.id) b.stack then (b, false)
    else
      let inside := b.stack.takeWhile (·.id != formatting.id)
      let outer := b.stack.drop (inside.length + 1)
      -- The outermost special element is the last of the stack's inner part.
      let between := (inside.reverse.takeWhile (!·.name.isSpecial)).reverse
      match (inside.take (inside.length - between.length)).reverse with
      | [] => ({ b.dropFormatting formatting.id with stack := outer }, false)
      | block :: inner => (b.adoptBlock formatting tag inner.reverse block between outer, true)

/-- At most so many rounds of the adoption. -/
def adoptRounds : Nat → String → Builder → Builder
  | 0, _, b => b
  | rounds + 1, name, b =>
    match b.adoptOnce name with
    | (b, true) => adoptRounds rounds name b
    | (b, false) => b

/-- The effect of the end tag of a formatting element. -/
def adopt (b : Builder) (name : String) : Builder :=
  if b.currentIs name && (b.formattingTag? b.current.id).isNone then b.pop
  else adoptRounds 8 name b

/-- The effect of a link's start tag on a link that is still open. -/
def endLink (b : Builder) : Builder :=
  let isLink : Entry → Option Opened
    | .mark => none
    | .element o _ => if o.name.isHtml "a" then some o else none
  match (b.formatting.takeWhile Entry.isElement).findSome? isLink with
  | none => b
  | some o => ((b.adopt "a").dropFormatting o.id).dropOpened o.id

end Builder

end Html

end SoleRoot

import SoleRoot.Markup.Node

/-!
# Changing Trees

Adding to an element or to a document, and finding an element at the top of a
document by its number.

Elements are numbered among themselves, from zero: a text or a comment between
two of them does not count. A change to an element leaves every other node of
the document as it is and where it is.

## Main definitions

* `Element.pushAttribute`, `Element.pushChild`, `Document.append`: Adding at the
  end.
* `Document.element?`, `Document.modifyElement`: An element by its number.

## Theorems

* `element?_modifyElement`: The change is made to the element of that number.
* `length_modifyElement`: No node is added or lost.
-/

namespace SoleRoot

namespace Element

/-- The element with one more attribute, behind the others. -/
def pushAttribute (e : Element) (a : Attribute) : Element :=
  { e with attributes := e.attributes ++ [a] }

/-- The element with one more child, behind the others. -/
def pushChild (e : Element) (n : Node) : Element :=
  { e with children := e.children ++ [n] }

end Element

/-- Change the element of a number among some nodes. -/
def modifyElementAt (f : Element → Element) : Nat → List Node → List Node
  | _, [] => []
  | n, node :: nodes =>
    match node.element?, n with
    | none, n => node :: modifyElementAt f n nodes
    | some e, 0 => (f e).toNode :: nodes
    | some _, n + 1 => node :: modifyElementAt f n nodes

namespace Document

/-- The document with more nodes, behind its own. -/
def append (d : Document) (nodes : List Node) : Document :=
  { d with nodes := d.nodes ++ nodes }

/-- The element of a number at the top of a document. -/
def element? (d : Document) (n : Nat) : Option Element :=
  (d.nodes.filterMap Node.element?)[n]?

/-- The document with a change to the element of a number. -/
def modifyElement (d : Document) (n : Nat) (f : Element → Element) : Document :=
  { d with nodes := modifyElementAt f n d.nodes }

end Document

@[simp] theorem Node.element?_toNode (e : Element) : e.toNode.element? = some e := rfl

theorem filterMap_modifyElementAt (f : Element → Element) (n : Nat) (nodes : List Node) :
    (modifyElementAt f n nodes).filterMap Node.element? =
      (nodes.filterMap Node.element?).modify n f := by
  induction nodes generalizing n with
  | nil => simp [modifyElementAt]
  | cons node nodes ih =>
      simp only [modifyElementAt]
      split
      · rename_i h
        simp [h, ih]
      · rename_i e h
        simp [h]
      · rename_i e n h
        simp [h, ih]

namespace Document

theorem element?_modifyElement (d : Document) (n : Nat) (f : Element → Element) :
    (d.modifyElement n f).element? n = (d.element? n).map f := by
  simp [element?, modifyElement, filterMap_modifyElementAt]

theorem length_modifyElement (d : Document) (n : Nat) (f : Element → Element) :
    (d.modifyElement n f).nodes.length = d.nodes.length := by
  simp only [modifyElement]
  generalize d.nodes = nodes
  induction nodes generalizing n with
  | nil => rfl
  | cons node nodes ih =>
      simp only [modifyElementAt]
      split <;> simp [ih]

end Document

end SoleRoot

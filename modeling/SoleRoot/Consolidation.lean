import SoleRoot.Markup.Document

/-!
# One Root

Bringing the nodes of a document under one element.

White space and comments at the top do not count. If an element is all that is
left, it is the root, just as it was read. Otherwise a container is put around
what is left, in its order, so there is always exactly one root.

## Main definitions

* `ResolvedRoot`: The root and how it came about.
* `Document.consolidate`: The root of a document.

## Theorems

* `synthesized_consolidate_iff`: A container is made unless one element is all
  that is left.
-/

namespace SoleRoot

/-- The one root of a document. -/
structure ResolvedRoot where
  mode : Mode
  element : Element
  /-- Whether the root is a container that the document does not have. -/
  synthesized : Bool
  deriving Repr

namespace ResolvedRoot

/-- The text of the root in the document's dialect. -/
def serialize (r : ResolvedRoot) : String :=
  r.element.serialize r.mode

end ResolvedRoot

/-- The name of the container. -/
def containerName : String := "div"

namespace Node

/-- Whether a node counts at the top of a document. -/
def isKept (n : Node) : Bool :=
  !n.isBlankText && !n.isComment

end Node

namespace Document

/-- The root of a document: its one element, or a container around what is
    left. -/
def consolidate (d : Document) : ResolvedRoot :=
  match d.nodes.filter Node.isKept with
  | [.element tag children] => ⟨d.mode, ⟨tag, children⟩, false⟩
  | kept => ⟨d.mode, ⟨{ name := containerName }, kept⟩, true⟩

theorem synthesized_consolidate_iff (d : Document) :
    d.consolidate.synthesized = false ↔
      ∃ e : Element, d.nodes.filter Node.isKept = [e.toNode] := by
  unfold consolidate
  split
  · rename_i tag children h
    simp only [true_iff]
    exact ⟨⟨tag, children⟩, h⟩
  · rename_i h
    simp only [Bool.true_eq_false, false_iff, not_exists]
    exact fun e he => h e.toTag e.children he

end Document

end SoleRoot

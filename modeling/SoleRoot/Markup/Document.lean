import SoleRoot.Faithful.Printer
import SoleRoot.Faithful.Tree
import SoleRoot.Html.Printer
import SoleRoot.Html.Reader

/-!
# Documents

Reading and writing in either dialect.

The permissive dialect reads any text. The faithful one may refuse a text, and
then says what is wrong and where. Both give a list of nodes, and each has its
own way to write a node.

## Main definitions

* `Node.serialize`, `Element.serialize`, `Document.serialize`: The text of a
  tree in a dialect.
* `Document.parse`: The tree of a text in a dialect.

## Theorems

* `Document.toList_serialize_permissive`: What is written as HTML.
-/

namespace SoleRoot

namespace Node

/-- The characters of a node in a dialect. -/
def write (mode : Mode) (n : Node) : List Char :=
  match mode with
  | .permissive => Html.write false n
  | .faithful => Faithful.write n

/-- The text of a node in a dialect. -/
def serialize (mode : Mode) (n : Node) : String :=
  String.ofList (n.write mode)

end Node

namespace Element

/-- The text of an element in a dialect. -/
def serialize (mode : Mode) (e : Element) : String :=
  e.toNode.serialize mode

end Element

namespace Document

/-- The text of a document in its dialect. -/
def serialize (d : Document) : String :=
  String.ofList (d.nodes.flatMap (Node.write d.mode))

theorem toList_serialize_permissive (ns : List Node) :
    (serialize ⟨.permissive, ns⟩).toList = Html.writeAll false ns := by
  rw [serialize, String.toList_ofList, Html.writeAll_eq_flatMap]
  rfl

/-- The nodes of a text in a dialect. -/
def parseNodes (mode : Mode) (source : String) : Except Malformed (List Node) :=
  match mode with
  | .permissive => .ok (Html.read source.toList)
  | .faithful =>
    (Faithful.read source.toList).mapError (Faithful.Fault.toMalformed source.toList)

/-- The document of a text in a dialect. -/
def parse (mode : Mode) (source : String) : Except Malformed Document :=
  (parseNodes mode source).map (⟨mode, ·⟩)

end Document

end SoleRoot

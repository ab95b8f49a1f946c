import Mathlib.Data.List.Forall2
import SoleRoot.Html.Tree

/-!
# Trees Up to the Order of Attributes

What can be said of two trees when their attributes may stand in another order.

A finished tree stores the attributes of an element in the order of their names, so
reading what was written does not give the order that was written. `Reordered`
relates two trees that are equal but for this order. It says nothing of spelling,
which the trees have to agree in; `unspelled` takes it away. What has been read as HTML
has no spelling anyway.

## Main definitions

* `Node.unspelled`, `Node.unspelledAll`: Trees without their spelling.
* `Node.Reordered`: Trees that are equal up to the order of attributes.
* `Html.Attribute.finished`: An attribute as it is stored at last.

## Theorems

* `Attribute.precedes_plain`: Attributes of HTML are ordered by their names.
* `Item.finishAttributes_sorted`: Finishing an element only sorts its attributes.
-/

namespace SoleRoot

/-- The attribute without its spelling. -/
def Attribute.unspelled (a : Attribute) : Attribute where
  name := a.name
  value := a.value

/-- The tag without its spelling. -/
def Tag.unspelled (t : Tag) : Tag where
  name := t.name
  attributes := t.attributes.map Attribute.unspelled

namespace Node

mutual

/-- The node without its spelling. -/
def unspelled : Node → Node
  | .element tag children => .element tag.unspelled (unspelledAll children)
  | .text content => .text content
  | .comment content => .comment content
  | .cdata content => .cdata content

/-- The nodes without their spelling. -/
def unspelledAll : List Node → List Node
  | [] => []
  | n :: ns => unspelled n :: unspelledAll ns

end

/-- Whether a node is another one, but for the order of attributes in each
    element. -/
inductive Reordered : Node → Node → Prop where
  | element {tag : Tag} {attributes : List Attribute} {ns ms : List Node}
    (hattributes : tag.attributes.Perm attributes) (hchildren : List.Forall₂ Reordered ns ms) :
    Reordered (.element tag ns) (.element { tag with attributes } ms)
  | text (content : String) : Reordered (.text content) (.text content)
  | comment (content : String) : Reordered (.comment content) (.comment content)
  | cdata (content : String) : Reordered (.cdata content) (.cdata content)

end Node

namespace Html

namespace Attribute

/-- An attribute of a finished element. -/
def finished (a : Attribute) : SoleRoot.Attribute :=
  { name := a.name, value := a.value }

/-- What attributes are ordered by. -/
def key (a : Attribute) : List String :=
  [a.qualifier.getD "", a.space, a.name]

/-- Whether two names are in the order in which attributes without a namespace are stored. -/
def inOrder (name other : String) : Bool :=
  (plain (name, "")).precedes (plain (other, ""))

-- The order of lists is that of `List.lex`, whatever order else there may be.
theorem precedes_iff (a b : Attribute) :
    a.precedes b = true ↔ @LE.le (List String) List.instLE a.key b.key := by
  rw [precedes, Bool.not_eq_true']
  exact List.lex_eq_false_iff_ge

theorem precedes_trans (a b c : Attribute) (hab : a.precedes b = true)
    (hbc : b.precedes c = true) : a.precedes c = true :=
  (precedes_iff a c).2 (List.le_trans ((precedes_iff a b).1 hab) ((precedes_iff b c).1 hbc))

theorem precedes_total (a b : Attribute) : (a.precedes b || b.precedes a) = true := by
  rw [Bool.or_eq_true, precedes_iff, precedes_iff]
  exact List.le_total _ _

/-- Without a namespace only the name counts. -/
theorem precedes_plain (a b : String × String) :
    (plain a).precedes (plain b) = inOrder a.1 b.1 :=
  rfl

theorem eq_of_inOrder {name other : String} (h : inOrder name other = true)
    (h' : inOrder other name = true) : name = other := by
  -- Neither has a namespace, so their keys differ in the names only.
  have hkeys := List.le_antisymm ((precedes_iff _ _).1 h) ((precedes_iff _ _).1 h')
  simpa [key, plain] using hkeys

end Attribute

namespace Item

/-- Finishing an element only sorts its attributes. -/
theorem finishAttributes_perm (attributes : List Attribute) :
    (attributes.map Attribute.finished).Perm (finishAttributes attributes) :=
  ((List.mergeSort_perm attributes Attribute.precedes).map _).symm

/-- Finishing an element puts its attributes in order. -/
theorem finishAttributes_sorted (attributes : List Attribute) :
    ∃ sorted : List Attribute, sorted.Perm attributes ∧
      (sorted.Pairwise fun a b => a.precedes b = true) ∧
      finishAttributes attributes = sorted.map Attribute.finished :=
  ⟨attributes.mergeSort Attribute.precedes, List.mergeSort_perm attributes _,
    List.pairwise_mergeSort Attribute.precedes_trans Attribute.precedes_total attributes, rfl⟩

/-- Two attributes change places if they were not in order. -/
theorem finishAttributes_pair (a b : Attribute) : finishAttributes [a, b] =
    if a.precedes b then [a.finished, b.finished] else [b.finished, a.finished] := by
  -- Two of them are halved, and the halves are merged.
  have hsort : [a, b].mergeSort Attribute.precedes = if a.precedes b then [a, b] else [b, a] := by
    simp [List.mergeSort, List.MergeSort.Internal.splitInTwo, List.merge]
  rw [finishAttributes, hsort]
  split
  · rfl
  · rfl

end Item

end Html

end SoleRoot

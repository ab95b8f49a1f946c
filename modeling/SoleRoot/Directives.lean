import SoleRoot.Markup.Node

/-!
# Root Directives

Attributes on the root that tell the template compiler what to skip.

There are two directives, one that leaves an element's inside uncompiled and
one that renders it only once. Each is an attribute with the value `true`, put
behind the attributes that the root has, and left out if the root already has
an attribute of its name, whatever its value.

## Main definitions

* `DirectiveSet`: Which directives are asked for.
* `DirectiveSet.names`: Their attributes' names, in order.
* `Element.inject`: The element with its directives.
-/

namespace SoleRoot

/-- Which directives are asked for. -/
structure DirectiveSet where
  once : Bool := false
  pre : Bool := false
  deriving DecidableEq, Repr, Inhabited

namespace DirectiveSet

/-- Whether no directive is asked for. -/
def isEmpty (d : DirectiveSet) : Bool :=
  !d.once && !d.pre

/-- The names of the attributes, in the order in which they are added. -/
def names (d : DirectiveSet) : List String :=
  (if d.pre then ["v-pre"] else []) ++ (if d.once then ["v-once"] else [])

end DirectiveSet

namespace Tag

/-- The tag with an attribute of a name, unless it has one. -/
def declare (t : Tag) (name : String) : Tag :=
  if t.hasAttribute name then t
  else { t with attributes := t.attributes ++ [{ name, value := "true" }] }

end Tag

namespace Element

/-- The element with its directives. -/
def inject (e : Element) (d : DirectiveSet) : Element :=
  { e with toTag := d.names.foldl Tag.declare e.toTag }

end Element

end SoleRoot

import SoleRoot.Html.Name

/-!
# Embedded Graphics and Formulas

The spelling of names inside graphics and formulas.

Tags are put in lower case when they are read, but graphics have names in mixed
case, and attributes there may belong to a namespace of their own. The tables
hold each such name in its right spelling; a name is looked up by its letters
in lower case.

An attribute is known by its local name together with the qualifier and the
namespace in front of it. Two attributes of one element can share a local name.

## Main definitions

* `Attribute`: An attribute with a qualified name.
* `graphicsName`: The right spelling of an element's name.
* `graphicsAttribute`, `formulaAttribute`: The right spelling of an attribute's
  name.
* `qualify`: The namespace of an attribute.
* `Attribute.precedes`: The order in which attributes are stored.
-/

namespace SoleRoot

namespace Html

/-- An attribute with a qualified name. -/
structure Attribute where
  /-- What stands before the colon, if the name has a namespace of its own. -/
  qualifier : Option String := none
  /-- The namespace, empty if the name has none. -/
  space : String := ""
  name : String
  value : String
  deriving DecidableEq, Repr, Inhabited

namespace Attribute

/-- An attribute without a namespace. -/
def plain (a : String × String) : Attribute :=
  { name := a.1, value := a.2 }

/-- Attributes are stored by qualifier, namespace and local name. -/
def precedes (a b : Attribute) : Bool :=
  let key (a : Attribute) := [a.qualifier.getD "", a.space, a.name]
  !(key b).lex (key a)

end Attribute

namespace Foreign

/-- The names of elements of graphics that are not in lower case. -/
def graphicsNames : List String :=
  ["altGlyph", "altGlyphDef", "altGlyphItem", "animateColor", "animateMotion",
    "animateTransform", "clipPath", "feBlend", "feColorMatrix", "feComponentTransfer",
    "feComposite", "feConvolveMatrix", "feDiffuseLighting", "feDisplacementMap",
    "feDistantLight", "feDropShadow", "feFlood", "feFuncA", "feFuncB", "feFuncG", "feFuncR",
    "feGaussianBlur", "feImage", "feMerge", "feMergeNode", "feMorphology", "feOffset",
    "fePointLight", "feSpecularLighting", "feSpotLight", "feTile", "feTurbulence",
    "foreignObject", "glyphRef", "linearGradient", "radialGradient", "textPath"]

/-- The names of attributes of graphics that are not in lower case. -/
def graphicsAttributes : List String :=
  ["attributeName", "attributeType", "baseFrequency", "baseProfile", "calcMode",
    "clipPathUnits", "diffuseConstant", "edgeMode", "filterUnits", "glyphRef",
    "gradientTransform", "gradientUnits", "kernelMatrix", "kernelUnitLength", "keyPoints",
    "keySplines", "keyTimes", "lengthAdjust", "limitingConeAngle", "markerHeight",
    "markerUnits", "markerWidth", "maskContentUnits", "maskUnits", "numOctaves", "pathLength",
    "patternContentUnits", "patternTransform", "patternUnits", "pointsAtX", "pointsAtY",
    "pointsAtZ", "preserveAlpha", "preserveAspectRatio", "primitiveUnits", "refX", "refY",
    "repeatCount", "repeatDur", "requiredExtensions", "requiredFeatures", "specularConstant",
    "specularExponent", "spreadMethod", "startOffset", "stdDeviation", "stitchTiles",
    "surfaceScale", "systemLanguage", "tableValues", "targetX", "targetY", "textLength",
    "viewBox", "viewTarget", "xChannelSelector", "yChannelSelector", "zoomAndPan"]

/-- The spelling of a name that a table of names gives it. -/
def respell (table : List String) (name : String) : String :=
  (table.find? fun spelling => spelling.toLower == name).getD name

/-- The right spelling of the name of an element of graphics. -/
def graphicsName (name : String) : String :=
  respell graphicsNames name

/-- The right spelling of the name of an attribute of graphics. -/
def graphicsAttribute (name : String) : String :=
  respell graphicsAttributes name

/-- The right spelling of the name of an attribute of formulas. -/
def formulaAttribute (name : String) : String :=
  respell ["definitionURL"] name

/-- The qualified names of attributes: as written, the qualifier, the namespace
    and the local name. -/
def qualifiedNames : List (String × Option String × String × String) :=
  let link := "http://www.w3.org/1999/xlink"
  let markup := "http://www.w3.org/XML/1998/namespace"
  let declaration := "http://www.w3.org/2000/xmlns/"
  (["actuate", "arcrole", "href", "role", "show", "title", "type"].map fun name =>
      ("xlink:" ++ name, some "xlink", link, name)) ++
    [("xml:lang", some "xml", markup, "lang"), ("xml:space", some "xml", markup, "space"),
      ("xmlns", none, declaration, "xmlns"), ("xmlns:xlink", some "xmlns", declaration, "xlink")]

/-- An attribute with the namespace that its name has inside graphics and
    formulas. -/
def qualify (a : String × String) : Attribute :=
  match qualifiedNames.lookup a.1 with
  | some (qualifier, space, name) => ⟨qualifier, space, name, a.2⟩
  | none => .plain a

/-- The attributes of an element of a namespace. -/
def attributesIn (space : Namespace) (attributes : List (String × String)) : List Attribute :=
  match space with
  | .html => attributes.map .plain
  | .svg => attributes.map fun a => qualify (graphicsAttribute a.1, a.2)
  | .mathml => attributes.map fun a => qualify (formulaAttribute a.1, a.2)

end Foreign

end Html

end SoleRoot

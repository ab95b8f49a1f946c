import SoleRoot.Html.Rules.Body

/-!
# Rules for Templates

The effect of each token directly inside a template.

A template may hold what could stand anywhere, parts of a table included. The
first start tag decides which it is: the template then takes the mode in which
such an element is read, and the tag is looked at again in it.

## Main definitions

* `Builder.inTemplateMode`: The effect of a token.
-/

namespace SoleRoot

namespace Html

namespace Builder

/-- The mode in which a template reads an element of a name. -/
def templateModeFor (name : String) : InsertionMode :=
  if ["caption", "colgroup", "tbody", "tfoot", "thead"].contains name then .inTable
  else if name = "col" then .inColumnGroup
  else if name = "tr" then .inTableBody
  else if ["td", "th"].contains name then .inRow
  else .inBody

/-- The effect of a token directly inside a template. -/
def inTemplateMode (b : Builder) (t : Token) : Outcome :=
  match t with
  | .startTag tag =>
    if metadata.contains tag.name then .done (b.startMetadata tag)
    else
      let mode := templateModeFor tag.name
      .again t { b with mode, templateModes := mode :: b.templateModes.drop 1 }
  | .endTag name => .done (if name = "template" then b.endTemplate else b)
  | _ => .done (b.acceptInBody t)

end Builder

end Html

end SoleRoot

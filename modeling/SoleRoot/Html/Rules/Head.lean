import SoleRoot.Html.Formatting

/-!
# Rules for Metadata

Elements that may stand anywhere and are read alike wherever they stand: links
and the like, titles, style sheets, scripts and templates.

A title, a style sheet and a script hold text that is read in its own way until
the end tag. A template has an inside of its own, with its own modes.

## Main definitions

* `Builder.startMetadata`: The effect of a start tag of such an element.
* `Builder.endTemplate`: The effect of a template's end tag.
-/

namespace SoleRoot

namespace Html

namespace Builder

/-- The metadata elements that hold nothing. -/
def emptyMetadata : List String :=
  ["base", "basefont", "bgsound", "link", "meta"]

/-- All elements whose start tags these rules are for. -/
def metadata : List String :=
  emptyMetadata ++ ["noframes", "script", "style", "template", "title"]

/-- The effect of a template's start tag. -/
def startTemplate (b : Builder) (tag : TagToken) : Builder :=
  { b.markFormatting with
    mode := .inTemplate
    templateModes := .inTemplate :: b.templateModes }.openElement tag

/-- The effect of a start tag of a metadata element. -/
def startMetadata (b : Builder) (tag : TagToken) : Builder :=
  if emptyMetadata.contains tag.name then b.insertVoid tag
  else if tag.name = "title" then b.openText tag (.escapable tag.name)
  else if tag.name = "script" then b.openText tag .script
  else if tag.name = "template" then b.startTemplate tag
  else b.openText tag (.raw tag.name)

/-- The effect of a template's end tag. -/
def endTemplate (b : Builder) : Builder :=
  if b.inTemplate then
    let b := ((b.impliedEnds Name.thoroughImpliedEnds).closeNamed "template").clearFormatting
    { b with templateModes := b.templateModes.drop 1 }.resetMode
  else b

end Builder

end Html

end SoleRoot

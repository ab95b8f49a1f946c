import SoleRoot.Html.Rules.Body

/-!
# Rules for Choices

The effect of each token inside a `select` element.

A choice holds options, their groups, rules between them, and text. Any other
tag is left out, except that some elements end the choice and are then read
outside it. A choice inside a table also ends at the parts of the table.

## Main definitions

* `Builder.inSelect`, `Builder.inSelectInTable`: The effect of a token.
-/

namespace SoleRoot

namespace Html

namespace Builder

/-- An option closed, if it is the innermost element. -/
def endOption (b : Builder) : Builder :=
  if b.currentIs "option" then b.pop else b

/-- A group of options closed, if it is the innermost element. -/
def endGroup (b : Builder) : Builder :=
  if b.currentIs "optgroup" then b.pop else b

/-- The choice closed. -/
def endSelect (b : Builder) : Builder :=
  (b.closeNamed "select").resetMode

/-- The effect of a start tag inside a choice. -/
def startInSelect (b : Builder) (tag : TagToken) : Outcome :=
  match tag.name with
  | "option" => .done (b.endOption.openElement tag)
  | "optgroup" => .done (b.endOption.endGroup.openElement tag)
  | "hr" => .done (b.endOption.endGroup.insertVoid tag)
  | "select" => .done (if b.hasInScope .select "select" then b.endSelect else b)
  | "input" | "keygen" | "textarea" =>
    if b.hasInScope .select "select" then .again (.startTag tag) b.endSelect else .done b
  | "script" | "template" => .done (b.startMetadata tag)
  | _ => .done b

/-- The effect of an end tag inside a choice. -/
def endInSelect (b : Builder) (name : String) : Builder :=
  match name with
  | "optgroup" =>
    match b.stack with
    | o :: group :: _ =>
      (if o.name.isHtml "option" && group.name.isHtml "optgroup" then b.pop else b).endGroup
    | _ => b.endGroup
  | "option" => b.endOption
  | "select" => if b.hasInScope .select "select" then b.endSelect else b
  | "template" => b.endTemplate
  | _ => b

/-- The effect of a token inside a choice. -/
def inSelect (b : Builder) (t : Token) : Outcome :=
  match t with
  | .text content => .done (b.insertText content)
  | .comment content => .done (b.insertComment content)
  | .startTag tag => b.startInSelect tag
  | .endTag name => .done (b.endInSelect name)
  | .null => .done b
  | .doctype => .done b

/-- The tags of a table that end a choice in it. -/
def selectEnders : List String :=
  ["caption", "table", "tbody", "td", "tfoot", "th", "thead", "tr"]

/-- The effect of a token inside a choice in a table. -/
def inSelectInTable (b : Builder) (t : Token) : Outcome :=
  match t with
  | .startTag tag =>
    if selectEnders.contains tag.name then .again t b.endSelect else b.inSelect t
  | .endTag name =>
    if selectEnders.contains name then
      if b.hasInScope .table name then .again t b.endSelect else .done b
    else b.inSelect t
  | _ => b.inSelect t

end Builder

end Html

end SoleRoot

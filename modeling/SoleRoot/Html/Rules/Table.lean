import SoleRoot.Html.Rules.Body

/-!
# Rules for Tables

The effect of each token in a table, outside its cells and captions and inside
them.

A part of a table may be left out or left open. A start tag that needs parts
which are not there opens them first, and one that cannot stand where it is
closes parts until it can; both hand the token back to be looked at again in
the mode that results. Tokens that belong in no part go before the table.

Text in a table waits until something else comes. If it is white space it stays
where it is, and if it is not, it goes before the table.

## Main definitions

* `Builder.inTable`, `Builder.inTableText`, `Builder.inCaption`,
  `Builder.inColumnGroup`, `Builder.inTableBody`, `Builder.inRow`,
  `Builder.inCell`: The effect of a token.
* `Builder.placePending`: The waiting text put in its place.
-/

namespace SoleRoot

namespace Html

namespace Builder

/-- The elements inside which a table's parts stand. -/
def tableContext : List String :=
  ["table", "template", "html"]

/-- The elements inside which rows stand. -/
def bodyContext : List String :=
  ["tbody", "tfoot", "thead", "template", "html"]

/-- The elements inside which cells stand. -/
def rowContext : List String :=
  ["tr", "template", "html"]

/-- The groups of rows. -/
def rowGroups : List String :=
  ["tbody", "tfoot", "thead"]

/-- The tags of a table's parts above the level of rows. -/
def upperParts : List String :=
  ["caption", "col", "colgroup", "tbody", "tfoot", "thead"]

/-- The cells. -/
def cells : List String :=
  ["td", "th"]

/-- Characters of a table: they wait inside its parts, and go before it
    elsewhere. -/
def startTableText (b : Builder) (t : Token) : Outcome :=
  if b.currentIsIn Name.tableParts then
    .again t { b with returnMode := b.mode, mode := .inTableText, pending := [] }
  else .done (b.foster t)

/-- The waiting text put in its place. -/
def placePending (b : Builder) : Builder :=
  let content := b.pending
  let b := { b with pending := [] }
  if content.all Text.isHtmlSpace then b.insertText content else b.foster (.text content)

/-- The effect of a token while text of a table waits. -/
def inTableText (b : Builder) (t : Token) : Outcome :=
  match t with
  | .text content => .done { b with pending := b.pending ++ content }
  | .null => .done b
  | _ => .again t { b.placePending with mode := b.returnMode, returnMode := .inBody }

/-- The effect of an input's start tag: a hidden one may stand in a table. -/
def startTableInput (b : Builder) (tag : TagToken) : Builder :=
  if (tag.attributes.lookup "type").any (·.toLower == "hidden") then b.insertVoid tag
  else b.foster (.startTag tag)

/-- The effect of a form's start tag: it holds nothing in a table. -/
def startTableForm (b : Builder) (tag : TagToken) : Builder :=
  if b.inTemplate || b.form.isSome then b else { b.insertVoid tag with form := some b.nextId }

/-- The effect of a start tag in a table. -/
def startInTable (b : Builder) (tag : TagToken) : Outcome :=
  match tag.name with
  | "caption" =>
    .done { (b.closeTo tableContext).markFormatting.openElement tag with mode := .inCaption }
  | "colgroup" => .done { (b.closeTo tableContext).openElement tag with mode := .inColumnGroup }
  | "col" =>
    .again (.startTag tag)
      { (b.closeTo tableContext).openImplied "colgroup" with mode := .inColumnGroup }
  | "tbody" | "tfoot" | "thead" =>
    .done { (b.closeTo tableContext).openElement tag with mode := .inTableBody }
  | "td" | "th" | "tr" =>
    .again (.startTag tag)
      { (b.closeTo tableContext).openImplied "tbody" with mode := .inTableBody }
  | "table" =>
    if b.hasInScope .table "table" then .again (.startTag tag) (b.closeNamed "table").resetMode
    else .done b
  | "style" | "script" | "template" => .done (b.startMetadata tag)
  | "input" => .done (b.startTableInput tag)
  | "form" => .done (b.startTableForm tag)
  | _ => .done (b.foster (.startTag tag))

/-- The effect of an end tag in a table. -/
def endInTable (b : Builder) (name : String) : Builder :=
  if name = "table" then
    if b.hasInScope .table "table" then (b.closeNamed "table").resetMode else b
  else if (["body", "html", "tr"] ++ upperParts ++ cells).contains name then b
  else if name = "template" then b.endTemplate
  else b.foster (.endTag name)

/-- The effect of a token in a table. -/
def inTable (b : Builder) (t : Token) : Outcome :=
  match t with
  | .text _ => b.startTableText t
  | .null => b.startTableText t
  | .comment content => .done (b.insertComment content)
  | .startTag tag => b.startInTable tag
  | .endTag name => .done (b.endInTable name)
  | .doctype => .done b

/-- The caption closed. -/
def endCaption (b : Builder) : Builder :=
  { ((b.impliedEnds Name.impliedEnds).closeNamed "caption").clearFormatting with mode := .inTable }

/-- The effect of a token in a caption. -/
def inCaption (b : Builder) (t : Token) : Outcome :=
  match t with
  | .startTag tag =>
    if (upperParts ++ cells ++ ["tr"]).contains tag.name then
      if b.hasInScope .table "caption" then .again t b.endCaption else .done b
    else .done (b.acceptInBody t)
  | .endTag name =>
    if name = "caption" then
      .done (if b.hasInScope .table "caption" then b.endCaption else b)
    else if name = "table" then
      if b.hasInScope .table "caption" then .again t b.endCaption else .done b
    else if (["body", "html", "tr"] ++ upperParts ++ cells).contains name then .done b
    else .done (b.acceptInBody t)
  | _ => .done (b.acceptInBody t)

/-- The group of columns closed, and a token looked at again outside it. -/
def afterColumnGroup (b : Builder) (t : Token) : Outcome :=
  if b.currentIs "colgroup" then .again t { b.pop with mode := .inTable } else .done b

/-- Characters in a group of columns: white space stays, and others end it. -/
def columnGroupText (b : Builder) (content : List Char) : Outcome :=
  let b := b.insertText (content.takeWhile Text.isHtmlSpace)
  match content.dropWhile Text.isHtmlSpace with
  | [] => .done b
  | c :: cs =>
    if b.currentIs "colgroup" then b.afterColumnGroup (.text (c :: cs))
    else .done (b.insertText ((c :: cs).filter Text.isHtmlSpace))

/-- The effect of a token in a group of columns. -/
def inColumnGroup (b : Builder) (t : Token) : Outcome :=
  match t with
  | .text content => b.columnGroupText content
  | .comment content => .done (b.insertComment content)
  | .startTag tag =>
    if tag.name = "html" then .done (b.acceptInBody t)
    else if tag.name = "col" then .done (b.insertVoid tag)
    else if tag.name = "template" then .done (b.startMetadata tag)
    else b.afterColumnGroup t
  | .endTag name =>
    if name = "colgroup" then
      .done (if b.currentIs "colgroup" then { b.pop with mode := .inTable } else b)
    else if name = "col" then .done b
    else if name = "template" then .done b.endTemplate
    else b.afterColumnGroup t
  | .null => b.afterColumnGroup t
  | .doctype => .done b

/-- The group of rows closed. -/
def endRowGroup (b : Builder) : Builder :=
  { (b.closeTo bodyContext).pop with mode := .inTable }

/-- The effect of a tag above the level of rows in a group of rows. -/
def afterRowGroup (b : Builder) (t : Token) : Outcome :=
  if b.hasAnyInScope .table ["table", "tbody", "tfoot"] then .again t b.endRowGroup else .done b

/-- The effect of a token in a group of rows. -/
def inTableBody (b : Builder) (t : Token) : Outcome :=
  match t with
  | .startTag tag =>
    if tag.name = "tr" then .done { (b.closeTo bodyContext).openElement tag with mode := .inRow }
    else if cells.contains tag.name then
      .again t { (b.closeTo bodyContext).openImplied "tr" with mode := .inRow }
    else if upperParts.contains tag.name then b.afterRowGroup t
    else b.inTable t
  | .endTag name =>
    if rowGroups.contains name then
      .done (if b.hasInScope .table name then b.endRowGroup else b)
    else if name = "table" then b.afterRowGroup t
    else if (["body", "caption", "col", "colgroup", "html", "tr"] ++ cells).contains name then
      .done b
    else b.inTable t
  | _ => b.inTable t

/-- The row closed. -/
def endRow (b : Builder) : Builder :=
  { (b.closeTo rowContext).pop with mode := .inTableBody }

/-- The effect of a tag above the level of cells in a row. -/
def afterRow (b : Builder) (t : Token) : Outcome :=
  if b.hasInScope .table "tr" then .again t b.endRow else .done b

/-- The effect of a token in a row. -/
def inRow (b : Builder) (t : Token) : Outcome :=
  match t with
  | .startTag tag =>
    if cells.contains tag.name then
      .done { ((b.closeTo rowContext).openElement tag).markFormatting with mode := .inCell }
    else if (upperParts ++ ["tr"]).contains tag.name then b.afterRow t
    else b.inTable t
  | .endTag name =>
    if name = "tr" then .done (if b.hasInScope .table "tr" then b.endRow else b)
    else if name = "table" then b.afterRow t
    else if rowGroups.contains name then
      if b.hasInScope .table name then b.afterRow t else .done b
    else if (["body", "caption", "col", "colgroup", "html"] ++ cells).contains name then .done b
    else b.inTable t
  | _ => b.inTable t

/-- The cell closed. -/
def endCell (b : Builder) : Builder :=
  { ((b.impliedEnds Name.impliedEnds).closeThrough (·.isIn cells)).clearFormatting with
    mode := .inRow }

/-- The effect of a token in a cell. -/
def inCell (b : Builder) (t : Token) : Outcome :=
  match t with
  | .startTag tag =>
    if (upperParts ++ cells ++ ["tr"]).contains tag.name then
      if b.hasAnyInScope .table cells then .again t b.endCell else .done b
    else .done (b.acceptInBody t)
  | .endTag name =>
    if cells.contains name then
      if b.hasInScope .table name then
        let b := ((b.impliedEnds Name.impliedEnds).closeNamed name).clearFormatting
        .done { b with mode := .inRow }
      else .done b
    else if ["body", "caption", "col", "colgroup", "html"].contains name then .done b
    else if (["table", "tr"] ++ rowGroups).contains name then
      if b.hasInScope .table name then .again t b.endCell else .done b
    else .done (b.acceptInBody t)
  | _ => .done (b.acceptInBody t)

end Builder

end Html

end SoleRoot

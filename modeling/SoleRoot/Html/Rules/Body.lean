import SoleRoot.Html.Rules.Head

/-!
# Rules for the Body

The effect of each token on the body of a document.

A body takes any token, so these rules never hand one back. What a start tag
does is decided by its name. Blocks end a paragraph; a list item ends the item
before it; phrases open the formatting elements again that the last block has
closed; parts of a table mean nothing outside a table. What an end tag does is
to close its element, if that is open and not hidden, together with what may be
left open inside it.

## Main definitions

* `Builder.startInBody`, `Builder.endInBody`: The effect of a tag.
* `Builder.acceptInBody`: The effect of a token.
-/

namespace SoleRoot

namespace Html

namespace Builder

/-- Elements that end a paragraph and hold blocks. -/
def blocks : List String :=
  ["address", "article", "aside", "blockquote", "center", "details", "dialog", "dir", "div",
    "dl", "fieldset", "figcaption", "figure", "footer", "header", "hgroup", "main", "menu",
    "nav", "ol", "p", "search", "section", "summary", "ul"]

/-- Elements whose end tags close them as those of blocks do. -/
def closedAsBlocks : List String :=
  blocks.filter (· != "p") ++ ["button", "listing", "pre"]

/-- Elements that text carries on from block to block, but for links. -/
def phrases : List String :=
  ["b", "big", "code", "em", "font", "i", "s", "small", "strike", "strong", "tt", "u"]

/-- Elements that keep formatting inside themselves. -/
def enclosures : List String :=
  ["applet", "marquee", "object"]

/-- Elements that hold nothing and stand in the line. -/
def emptyInLine : List String :=
  ["area", "br", "embed", "img", "input", "keygen", "wbr"]

/-- Elements that hold nothing and stand for themselves. -/
def emptyPlain : List String :=
  ["param", "source", "track"]

/-- Elements that have no place in a body. -/
def misplaced : List String :=
  ["body", "caption", "col", "colgroup", "frame", "frameset", "head", "html", "tbody", "td",
    "tfoot", "th", "thead", "tr"]

/-- The open item that a list item of a name ends: the innermost of `names`,
    unless an element comes first that lists do not reach across. -/
def itemToEnd? (names : List String) : List Opened → Option String
  | [] => none
  | o :: os =>
    if o.name.isIn names then some o.name.localName
    else if o.name.isSpecial && !o.name.isIn ["address", "div", "p"] then none
    else itemToEnd? names os

/-- The effect of a start tag of a list item, which ends an item of `names`. -/
def startItem (b : Builder) (names : List String) (tag : TagToken) : Builder :=
  let b :=
    match itemToEnd? names b.stack with
    | some name => (b.impliedEndsExcept name).closeNamed name
    | none => b
  b.endParagraph.openElement tag

/-- The effect of a form's start tag. -/
def startForm (b : Builder) (tag : TagToken) : Builder :=
  if b.form.isSome && !b.inTemplate then b
  else
    let id := b.nextId
    let inTemplate := b.inTemplate
    let b := b.endParagraph.openElement tag
    if inTemplate then b else { b with form := some id }

/-- The effect of a start tag of a choice. -/
def startSelect (b : Builder) (tag : TagToken) : Builder :=
  let mode :=
    if [.inTable, .inCaption, .inTableBody, .inRow, .inCell].contains b.mode then
      InsertionMode.inSelectInTable
    else .inSelect
  { b.reopenFormatting.openElement tag with mode }

/-- The effect of a start tag of graphics or a formula. Neither opens formatting
    elements again. -/
def startForeign (b : Builder) (space : Namespace) (name : String) (tag : TagToken) : Builder :=
  let attributes := Foreign.attributesIn space tag.attributes
  if tag.selfClosing then b.insertElement ⟨space, name⟩ attributes
  else b.openNamed ⟨space, name⟩ attributes

/-- The effect of a start tag of an element whose text is read in its own way. -/
def startText (b : Builder) (tag : TagToken) : Builder :=
  match tag.name with
  | "textarea" => { b.openText tag (.escapable "textarea") with skipsLineFeed := true }
  | "xmp" => b.endParagraph.reopenFormatting.openText tag (.raw "xmp")
  | "plaintext" => { b.endParagraph.openElement tag with reading := .plain }
  | name => b.openText tag (.raw name)

/-- The effect of a start tag with rules of its own. -/
def startOther (b : Builder) (tag : TagToken) : Builder :=
  match tag.name with
  | "pre" | "listing" => { b.endParagraph.openElement tag with skipsLineFeed := true }
  | "form" => b.startForm tag
  | "li" => b.startItem ["li"] tag
  | "dd" | "dt" => b.startItem ["dd", "dt"] tag
  | "textarea" | "xmp" | "plaintext" | "iframe" | "noembed" | "noscript" => b.startText tag
  | "button" =>
    let b :=
      if b.hasInScope .general "button" then
        (b.impliedEnds Name.impliedEnds).closeNamed "button"
      else b
    b.reopenFormatting.openElement tag
  | "a" => b.endLink.reopenFormatting.openFormatting tag
  | "nobr" =>
    let b := b.reopenFormatting
    let b := if b.hasInScope .general "nobr" then (b.adopt "nobr").reopenFormatting else b
    b.openFormatting tag
  | "table" => { b.endParagraph.openElement tag with mode := .inTable }
  | "hr" => b.endParagraph.insertVoid tag
  | "image" => b.reopenFormatting.insertVoid { tag with name := "img" }
  | "select" => b.startSelect tag
  | "optgroup" | "option" =>
    let b := if b.currentIs "option" then b.pop else b
    b.reopenFormatting.openElement tag
  | "rb" | "rtc" =>
    let b := if b.hasInScope .general "ruby" then b.impliedEnds Name.impliedEnds else b
    b.openElement tag
  | "rp" | "rt" =>
    let b := if b.hasInScope .general "ruby" then b.impliedEndsExcept "rtc" else b
    b.openElement tag
  | "math" => b.startForeign .mathml tag.name tag
  | "svg" => b.startForeign .svg tag.name tag
  | _ => b.reopenFormatting.openElement tag

/-- The effect of a start tag. -/
def startInBody (b : Builder) (tag : TagToken) : Builder :=
  if blocks.contains tag.name then b.endParagraph.openElement tag
  else if phrases.contains tag.name then b.reopenFormatting.openFormatting tag
  else if misplaced.contains tag.name then b
  else if metadata.contains tag.name then b.startMetadata tag
  else if Name.headings.contains tag.name then
    let b := b.endParagraph
    (if b.currentIsIn Name.headings then b.pop else b).openElement tag
  else if enclosures.contains tag.name then b.reopenFormatting.openElement tag |>.markFormatting
  else if emptyInLine.contains tag.name then b.reopenFormatting.insertVoid tag
  else if emptyPlain.contains tag.name then b.insertVoid tag
  else b.startOther tag

/-- The effect of a form's end tag. -/
def endForm (b : Builder) : Builder :=
  if b.inTemplate then
    if b.hasInScope .general "form" then (b.impliedEnds Name.impliedEnds).closeNamed "form" else b
  else
    match b.form with
    | none => b
    | some id =>
      let b := { b with form := none }
      if Scope.general.has (·.id == id) b.stack then
        (b.impliedEnds Name.impliedEnds).dropOpened id
      else b

/-- The effect of an end tag. -/
def endInBody (b : Builder) (name : String) : Builder :=
  if closedAsBlocks.contains name then
    if b.hasInScope .general name then (b.impliedEnds Name.impliedEnds).closeNamed name else b
  else if phrases.contains name then b.adopt name
  else if Name.headings.contains name then
    if b.hasAnyInScope .general Name.headings then
      (b.impliedEnds Name.impliedEnds).closeThrough (·.isIn Name.headings)
    else b
  else if enclosures.contains name then
    if b.hasInScope .general name then
      ((b.impliedEnds Name.impliedEnds).closeNamed name).clearFormatting
    else b
  else
    match name with
    | "body" | "html" => b
    | "template" => b.endTemplate
    | "form" => b.endForm
    | "p" => (if b.hasInScope .button "p" then b else b.openImplied "p").closeParagraph
    | "li" =>
      if b.hasInScope .listItem "li" then (b.impliedEndsExcept "li").closeNamed "li" else b
    | "dd" | "dt" =>
      if b.hasInScope .general name then (b.impliedEndsExcept name).closeNamed name else b
    | "a" | "nobr" => b.adopt name
    | "br" => b.startInBody { name := "br" }
    | _ => b.closeOther name

/-- The effect of a token. -/
def acceptInBody (b : Builder) (t : Token) : Builder :=
  match t with
  | .text content => b.reopenFormatting.insertText content
  | .comment content => b.insertComment content
  | .startTag tag => b.startInBody tag
  | .endTag name => b.endInBody name
  | .null => b
  | .doctype => b

/-- The effect of a token that is out of place in a table. -/
def foster (b : Builder) (t : Token) : Builder :=
  { { b with fostering := true }.acceptInBody t with fostering := false }

end Builder

end Html

end SoleRoot

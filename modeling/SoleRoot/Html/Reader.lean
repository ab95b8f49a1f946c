import SoleRoot.Html.Rules.Foreign
import SoleRoot.Html.Rules.Select
import SoleRoot.Html.Rules.Table
import SoleRoot.Html.Rules.Template

/-!
# Reading HTML

From a text to its nodes, as the content of a body. Any text can be read.

Each token goes to the rules of the current mode, or to those of graphics and
formulas, and is looked at again for as long as a rule asks. A rule asks again
only after it has closed an element or gone one step down into a table, so the
number of looks is bounded by the number of open elements; `looks` is such a
bound.

## Main definitions

* `Builder.accept`: The effect of a token.
* `Builder.take`: The effect of a piece of text.
* `grow`: The effect of a text.
* `read`: The nodes of a text.
-/

namespace SoleRoot

namespace Html

namespace Builder

/-- The effect of a token inside a text that is read in its own way. -/
def inText (b : Builder) (t : Token) : Builder :=
  match t with
  | .text content => b.insertText content
  | .endTag _ => { b.pop with mode := b.returnMode, returnMode := .inBody, reading := .data }
  | _ => b

/-- The effect of a token by the rules of the current mode. -/
def inMode (b : Builder) (t : Token) : Outcome :=
  match b.mode with
  | .inBody => .done (b.acceptInBody t)
  | .inText => .done (b.inText t)
  | .inTable => b.inTable t
  | .inTableText => b.inTableText t
  | .inCaption => b.inCaption t
  | .inColumnGroup => b.inColumnGroup t
  | .inTableBody => b.inTableBody t
  | .inRow => b.inRow t
  | .inCell => b.inCell t
  | .inSelect => b.inSelect t
  | .inSelectInTable => b.inSelectInTable t
  | .inTemplate => b.inTemplateMode t

/-- The effect of a token by the rules of graphics and formulas. -/
def inForeign (b : Builder) (t : Token) : Outcome :=
  if breaksOut t then b.closeForeign.inMode t
  else
    match t with
    | .text content => .done (b.insertText content)
    | .null => .done (b.insertText [Reference.replacement])
    | .comment content => .done (b.insertComment content)
    | .startTag tag => .done (b.startInForeign tag)
    | .endTag name =>
      match foreignEnd name true b.stack with
      | .ignored => .done b
      | .html => b.inMode t
      | .closed stack => .done { b with stack }
    | .doctype => .done b

/-- One look at a token. -/
def look (b : Builder) (t : Token) : Outcome :=
  if b.isForeign t then b.inForeign t else b.inMode t

/-- A token looked at until it is done with, at most so many times. -/
def lookAgain : Nat → Builder → Token → Builder
  | 0, b, _ => b
  | looks + 1, b, t =>
    match b.look t with
    | .done b => b
    | .again t b => lookAgain looks b t

/-- How often a token is looked at at most. -/
def looks (b : Builder) : Nat :=
  4 * b.stack.length + 8

/-- The line feed left out that a text starts with. -/
def withoutLineFeed : Token → Option Token
  | .text (c :: cs) =>
    if c ≠ '\n' then some (.text (c :: cs)) else if cs.isEmpty then none else some (.text cs)
  | t => some t

/-- The effect of a token. -/
def accept (b : Builder) (t : Token) : Builder :=
  let kept := if b.skipsLineFeed then withoutLineFeed t else some t
  let b := { b with skipsLineFeed := false }
  match kept with
  | some .doctype => b
  | some t => b.lookAgain b.looks t
  | none => b

/-- Whether the innermost element is of graphics or a formula. -/
def currentIsForeign (b : Builder) : Bool :=
  b.current.name.space != .html

/-- The effect of a piece of text. A fault in it means that no line feed is
    left out any more. -/
def take (b : Builder) (p : Piece) : Builder :=
  p.tokens.foldl accept (if p.faulty then { b with skipsLineFeed := false } else b)

/-- The effect of the end of the text. -/
def finish (b : Builder) : Builder :=
  if b.mode = .inTableText then b.placePending else b

end Builder

/-- The effect of a text. -/
def grow (b : Builder) (cs : List Char) : Builder :=
  match cs with
  | [] => b.finish
  | c :: cs =>
    let p := next b.reading b.currentIsForeign c cs
    have := (next_suffix b.reading b.currentIsForeign c cs).length_le
    grow (b.take p) p.rest
termination_by cs.length

/-- A text with every line end as a line feed. -/
def normalizeLines : List Char → List Char
  | [] => []
  | c :: cs =>
    if c = '\r' then
      if cs.head? = some '\n' then normalizeLines cs else '\n' :: normalizeLines cs
    else c :: normalizeLines cs

/-- The nodes of a text. -/
def read (source : List Char) : List Node :=
  Item.toNodes (grow {} (normalizeLines (Text.dropMark source))).tree.children

end Html

end SoleRoot

import SoleRoot.Html.Rules.Body

/-!
# Rules for Graphics and Formulas

Whether a token is read by the rules of graphics and formulas, and its effect
if it is.

Inside graphics and formulas any name may open an element, and end tags match
in any letter case. A few elements hold HTML or text again, and there tokens
are read by the rules of HTML. Start tags of common elements of HTML, if they
come elsewhere, mean that an end tag was forgotten: they close everything that
is not HTML and are then read by its rules.

## Main definitions

* `Builder.isForeign`: Whether these rules apply.
* `ForeignEnd`, `foreignEnd`: What an end tag closes.
* `Builder.startInForeign`: The effect of a start tag that does not break out.
-/

namespace SoleRoot

namespace Html

/-- Whether a token is a start tag or characters. -/
def Token.isContent : Token → Bool
  | .startTag _ => true
  | .text _ => true
  | .null => true
  | _ => false

/-- Whether a token is a start tag of one of several names. -/
def Token.starts (names : List String) : Token → Bool
  | .startTag tag => names.contains tag.name
  | _ => false

namespace Builder

/-- Whether a token is read by the rules of graphics and formulas. -/
def isForeign (b : Builder) (t : Token) : Bool :=
  let name := b.current.name
  if name.space = .html then false
  else if name.isFormulaText && t.isContent && !t.starts ["mglyph", "malignmark"] then false
  else if name.isGraphicsHtml && t.isContent then false
  else if name = ⟨.mathml, "annotation-xml"⟩ && t.starts ["svg"] then false
  else true

/-- The start tags that break out of graphics and formulas. -/
def breakouts : List String :=
  ["b", "big", "blockquote", "body", "br", "center", "code", "dd", "div", "dl", "dt", "em",
    "embed", "h1", "h2", "h3", "h4", "h5", "h6", "head", "hr", "i", "img", "li", "listing",
    "menu", "meta", "nobr", "ol", "p", "pre", "ruby", "s", "small", "span", "strong", "strike",
    "sub", "sup", "table", "tt", "u", "ul", "var"]

/-- Whether a token breaks out of graphics and formulas. A font does so only if
    it says how text is to look. -/
def breaksOut : Token → Bool
  | .startTag tag =>
    breakouts.contains tag.name ||
      (tag.name == "font" && tag.attributes.any (["color", "face", "size"].contains ·.1))
  | .endTag name => ["br", "p"].contains name
  | _ => false

/-- Everything closed that is neither HTML nor holds it. -/
def closeForeign (b : Builder) : Builder :=
  let holdsHtml (n : Name) : Bool := n.space == .html || n.isFormulaText || n.isGraphicsHtml
  { b with stack := b.stack.dropWhile (!holdsHtml ·.name) }

/-- The effect of a start tag that does not break out. -/
def startInForeign (b : Builder) (tag : TagToken) : Builder :=
  let space := b.current.name.space
  let name := if space = .svg then Foreign.graphicsName tag.name else tag.name
  b.startForeign space name tag

end Builder

/-- What an end tag does inside graphics and formulas. -/
inductive ForeignEnd where
  | ignored
  /-- An element of HTML comes first, and its rules apply. -/
  | html
  /-- The stack that remains. -/
  | closed (stack : List Opened)
  deriving DecidableEq, Repr

/-- What an end tag closes, looking from the innermost element outwards. Only
    the innermost is looked at even if it is HTML; the root is never closed. -/
def foreignEnd (name : String) (innermost : Bool) : List Opened → ForeignEnd
  | [] => .ignored
  | [_] => .ignored
  | o :: os =>
    if !innermost && o.name.space == .html then .html
    else if o.name.localName.toLower == name then .closed os
    else foreignEnd name false os

end Html

end SoleRoot

/-!
# Element Names of HTML

Names with their namespace, and the classes of names that building a tree
depends on.

HTML gives structure to text by name alone: which elements end a paragraph,
which hide an open element from an end tag, which may not hold text. Each class
is a list of names, and a name belongs to it only in the namespace of HTML; the
few classes that reach into embedded graphics and formulas are predicates over
both. An element of another namespace with a name from a list is not in the
class.

## Main definitions

* `Namespace`, `Name`: A name and what it belongs to.
* `Name.isIn`: Membership in a list, in the namespace of HTML.
* `Name.isSpecial`: The names that stop the search of a stray end tag.
* `Scope`, `Scope.endsAt`: What hides an open element from an end tag.
-/

namespace SoleRoot

namespace Html

/-- What a name belongs to: HTML, graphics or formulas. -/
inductive Namespace where
  | html
  | svg
  | mathml
  deriving DecidableEq, Repr, Inhabited

/-- The name of an element. -/
structure Name where
  space : Namespace
  localName : String
  deriving DecidableEq, Repr, Inhabited

namespace Name

/-- A name in the namespace of HTML. -/
def html (localName : String) : Name :=
  ⟨.html, localName⟩

/-- Whether a name is one of a list, in the namespace of HTML. -/
def isIn (n : Name) (names : List String) : Bool :=
  n.space == .html && names.contains n.localName

/-- Whether a name is a given one, in the namespace of HTML. -/
def isHtml (n : Name) (localName : String) : Bool :=
  n.space == .html && n.localName == localName

/-- The names of headings. -/
def headings : List String :=
  ["h1", "h2", "h3", "h4", "h5", "h6"]

/-- The names that stop the search of an end tag for its element. -/
def special : List String :=
  ["address", "applet", "area", "article", "aside", "base", "basefont", "bgsound", "blockquote",
    "body", "br", "button", "caption", "center", "col", "colgroup", "dd", "details", "dir", "div",
    "dl", "dt", "embed", "fieldset", "figcaption", "figure", "footer", "form", "frame",
    "frameset", "h1", "h2", "h3", "h4", "h5", "h6", "head", "header", "hgroup", "hr", "html",
    "iframe", "img", "input", "isindex", "li", "link", "listing", "main", "marquee", "menu",
    "meta", "nav", "noembed", "noframes", "noscript", "object", "ol", "p", "param", "plaintext",
    "pre", "script", "section", "select", "source", "style", "summary", "table", "tbody", "td",
    "template", "textarea", "tfoot", "th", "thead", "title", "tr", "track", "ul", "wbr", "xmp"]

/-- Whether a name stops the search of an end tag for its element. -/
def isSpecial (n : Name) : Bool :=
  n.isIn special

/-- The elements of formulas that hold text. -/
def isFormulaText (n : Name) : Bool :=
  n.space == .mathml && ["mi", "mo", "mn", "ms", "mtext"].contains n.localName

/-- The elements of graphics that hold HTML. -/
def isGraphicsHtml (n : Name) : Bool :=
  n.space == .svg && ["foreignObject", "desc", "title"].contains n.localName

/-- The names whose end tag may be left out. -/
def impliedEnds : List String :=
  ["dd", "dt", "li", "option", "optgroup", "p", "rb", "rp", "rt", "rtc"]

/-- The names whose end tag may be left out before the end of a template. -/
def thoroughImpliedEnds : List String :=
  impliedEnds ++ ["caption", "colgroup", "tbody", "td", "tfoot", "th", "thead", "tr"]

/-- The parts of a table that may hold no text of their own. -/
def tableParts : List String :=
  ["table", "tbody", "tfoot", "thead", "tr"]

end Name

/-- The kinds of scope in which an open element is looked for. -/
inductive Scope where
  | general
  | listItem
  | button
  | table
  | select
  deriving DecidableEq, Repr

namespace Scope

/-- Whether an element of a name hides those that were opened before it. -/
def endsAt : Scope → Name → Bool
  | general, n => isGeneral n
  | listItem, n => isGeneral n || n.isIn ["ol", "ul"]
  | button, n => isGeneral n || n.isIn ["button"]
  | table, n => n.isIn ["html", "table", "template"]
  | select, n => !n.isIn ["optgroup", "option"]
where
  /-- The names that end a scope unless it is one of tables or choices. -/
  isGeneral (n : Name) : Bool :=
    n.isIn ["applet", "caption", "html", "table", "td", "th", "marquee", "object", "template"] ||
      n.isFormulaText || n.isGraphicsHtml

end Scope

end Html

end SoleRoot

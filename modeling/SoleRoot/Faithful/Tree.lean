import SoleRoot.Markup.Location
import SoleRoot.Faithful.Attributes
import SoleRoot.Faithful.Token

/-!
# Reading Faithfully

From tokens to a tree, or the first thing that is wrong.

The tokens are taken in order. A start tag opens a level, an end tag must name
the innermost open element and closes its level, and the rest are nodes of the
innermost level. What has been read is a `Growth`: the finished nodes of the
innermost level, and for each element still open its tag, where it started, and
the nodes before it on its own level. Declarations of the markup version,
processing instructions and document types are checked and dropped.

A fault names its cause as a value, and the byte where the offending token
starts. Only a document type without a name is located elsewhere, at its
closing angle bracket. A text that cannot be cut to its end is at fault where
its last construct starts, after every fault of a token before.

A byte order mark at the start of a text is not part of the markup, and offsets
count from behind it, although they are resolved against the whole text. The
same offsets take the text of an end tag from the source, so behind a byte
order mark that text is found three bytes early, and white space before the
end of an end tag is recorded only if what stands there looks like an end tag.

## Main definitions

* `Defect`, `Fault`: What is wrong, and the byte where.
* `Growth`, `Growth.step`: What has been read, and one token more.
* `read`: The nodes of a text.
-/

namespace SoleRoot

namespace Faithful

/-- What can be wrong with a text. -/
inductive Defect where
  /-- The last construct does not end. -/
  | unterminated (failure : Unterminated)
  /-- A document type has no name. -/
  | namelessDoctype
  /-- An end tag, and nothing is open. -/
  | strayEnd (name : String)
  /-- An end tag of another name than the innermost open element. -/
  | mismatchedEnd (expected found : String)
  /-- A text holds a faulty reference. -/
  | invalidText (fault : ReferenceFault)
  /-- A start tag has a faulty attribute. -/
  | invalidAttribute (fault : AttributeFault)
  /-- An element is still open at the end. -/
  | unclosed (name : String)
  deriving DecidableEq, Repr

namespace Defect

/-- The cause in words. -/
def message : Defect → String
  | unterminated failure => failure.message
  | namelessDoctype =>
    "ill-formed document: `<!DOCTYPE>` declaration does not contain a name of a document type"
  | strayEnd name => s!"ill-formed document: close tag `</{name}>` does not match any open tag"
  | mismatchedEnd expected found =>
    s!"ill-formed document: expected `</{expected}>`, but `</{found}>` was found"
  | invalidText fault => s!"invalid text content: {fault.message}"
  | invalidAttribute fault => fault.message
  | unclosed name => s!"unclosed tag <{name}>"

end Defect

/-- What is wrong with a text, and the byte where. -/
structure Fault where
  defect : Defect
  offset : Nat
  deriving DecidableEq, Repr

namespace Fault

/-- The fault, with its place in the text. -/
def toMalformed (source : List Char) (f : Fault) : Malformed :=
  .atOffset f.defect.message source f.offset

end Fault

/-- The name of a start tag: up to the first white space. -/
def tagName (content : List Char) : List Char :=
  content.takeWhile (!Text.isXmlSpace ·)

/-- What a start tag says, once the strict reading has accepted it. -/
def readTag (selfClosing : Bool) (content : List Char) : Except AttributeFault Tag :=
  let name := tagName content
  let rest := content.drop name.length
  match declarations (Text.byteSize name) rest with
  | .error fault => .error fault
  | .ok _ =>
    let scanned := scan rest
    .ok { name := String.ofList name
          attributes := scanned.1
          selfClosing
          trailing := scanned.2 }

/-- The name of an end tag: its content without white space at the end, unless
    it is white space only. -/
def endName (content : List Char) : List Char :=
  if content.all Text.isXmlSpace then content else Text.trimEnd Text.isXmlSpace content

/-- The blank characters before the end of an end tag, given the text of the
    source at its offsets. -/
def endSpace (found : Option (List Char)) : Option String := do
  let inner ← Text.strip? ['<', '/'] (← found)
  if inner.getLast? = some '>' then unusual? [] (Text.trailing Text.isBlank inner.dropLast)
  else none

/-- An element whose end tag has not been read. -/
structure OpenElement where
  tag : Tag
  /-- The byte at which its start tag starts. -/
  offset : Nat
  /-- The nodes before it on its level, the last first. -/
  before : List Node
  deriving Repr

/-- What has been read of a text. -/
structure Growth where
  /-- The byte that comes next. -/
  offset : Nat := 0
  /-- The elements that are open, the innermost first. -/
  opened : List OpenElement := []
  /-- The finished nodes of the innermost level, the last first. -/
  nodes : List Node := []
  deriving Repr

namespace Growth

/-- One node more on the innermost level. -/
def push (g : Growth) (n : Node) : Growth :=
  { g with nodes := n :: g.nodes }

/-- The effect of a token, but for moving on. `source` is the whole text. -/
def accept (source : List Char) (g : Growth) (t : Token) : Except Fault Growth :=
  match t with
  | .text content =>
    match check content with
    | .error fault => .error ⟨.invalidText fault, g.offset⟩
    | .ok () => .ok (g.push (.text (String.ofList content)))
  | .comment content => .ok (g.push (.comment (String.ofList content)))
  | .cdata content => .ok (g.push (.cdata (String.ofList content)))
  | .instruction _ => .ok g
  | .doctype content =>
    if (content.drop 7).all Text.isXmlSpace then
      .error ⟨.namelessDoctype, g.offset + Text.byteSize t.raw - 1⟩
    else .ok g
  | .startTag content =>
    match readTag false content with
    | .error fault => .error ⟨.invalidAttribute fault, g.offset⟩
    | .ok tag => .ok { g with opened := ⟨tag, g.offset, g.nodes⟩ :: g.opened, nodes := [] }
  | .selfClosingTag content =>
    match readTag true content with
    | .error fault => .error ⟨.invalidAttribute fault, g.offset⟩
    | .ok tag => .ok (g.push (.element tag []))
  | .endTag content =>
    let name := String.ofList (endName content)
    match g.opened with
    | [] => .error ⟨.strayEnd name, g.offset⟩
    | e :: opened =>
      if e.tag.name = name then
        let found := Text.slice? g.offset (g.offset + Text.byteSize t.raw) source
        let tag := { e.tag with endTrailing := endSpace found }
        .ok { g with opened, nodes := .element tag g.nodes.reverse :: e.before }
      else .error ⟨.mismatchedEnd e.tag.name name, g.offset⟩

/-- One token more. -/
def step (source : List Char) (g : Growth) (t : Token) : Except Fault Growth := do
  let g' ← g.accept source t
  .ok { g' with offset := g.offset + Text.byteSize t.raw }

/-- The nodes of a text that has been read to its end. -/
def finish (g : Growth) (failure : Option Unterminated) : Except Fault (List Node) :=
  match failure, g.opened with
  | some failure, _ => .error ⟨.unterminated failure, g.offset⟩
  | none, e :: _ => .error ⟨.unclosed e.tag.name, e.offset⟩
  | none, [] => .ok g.nodes.reverse

end Growth

/-- The nodes of a text, or its first fault. -/
def read (source : List Char) : Except Fault (List Node) := do
  let pieces := cut (Text.dropMark source)
  let g ← pieces.tokens.foldlM (Growth.step source) {}
  g.finish pieces.failure

end Faithful

end SoleRoot

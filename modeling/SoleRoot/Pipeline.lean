import SoleRoot.Consolidation
import SoleRoot.Directives
import SoleRoot.Text.Search

/-!
# From Text to Root

Preprocessing a text, reading it, and bringing it under one root.

A preprocessor is any function on text that may fail. A text that it fails on
is not read, and one that cannot be read has no root; `Failure` tells the two
apart. The preprocessors that are plain enough to be described by a value are
an `Edit`.

## Main definitions

* `Preprocessor`, `Edit`: Functions on text.
* `Failure`: Why a text has no root.
* `resolve`: The root of a text.
-/

namespace SoleRoot

/-- A function on text that may fail with a message. -/
abbrev Preprocessor := String → Except String String

/-- A preprocessor that a value describes. -/
inductive Edit where
  /-- Every occurrence of a text replaced. -/
  | replace (old new : String)
  /-- A text put in front. -/
  | prepend (text : String)
  /-- A text put behind. -/
  | append (text : String)
  /-- A text in place of any other. -/
  | constant (text : String)
  /-- No text at all. -/
  | fail (message : String)
  deriving DecidableEq, Repr

namespace Edit

/-- The function that an edit describes. -/
def apply : Edit → Preprocessor
  | replace old new, s => .ok (String.ofList (Text.replaceAll old.toList new.toList s.toList))
  | prepend text, s => .ok (text ++ s)
  | append text, s => .ok (s ++ text)
  | constant text, _ => .ok text
  | fail message, _ => .error message

end Edit

/-- Why a text has no root. -/
inductive Failure where
  | malformed (m : Malformed)
  | preprocessing (cause : String)
  deriving DecidableEq, Repr

namespace Failure

/-- The message shown to a person. -/
def message : Failure → String
  | malformed m => m.message
  | preprocessing cause => s!"Preprocessing error: {cause}"

end Failure

/-- The text that a preprocessor makes of another, if there is one. -/
def preprocess (preprocessor : Option Preprocessor) (source : String) : Except Failure String :=
  match preprocessor with
  | none => .ok source
  | some p => (p source).mapError .preprocessing

/-- The root of a text, with its directives. -/
def resolve (mode : Mode) (directives : DirectiveSet) (preprocessor : Option Preprocessor)
    (source : String) : Except Failure ResolvedRoot := do
  let source ← preprocess preprocessor source
  let document ← (Document.parse mode source).mapError .malformed
  let root := document.consolidate
  .ok { root with element := root.element.inject directives }

end SoleRoot

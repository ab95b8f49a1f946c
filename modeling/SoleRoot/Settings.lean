import SoleRoot.Options

/-!
# Settings

What a build tool says about how to transform its files.

Settings are the part of the options that can be written down: a function on
text cannot, so it is handed over beside them. Settings without components ask
for no registry at all.

## Main definitions

* `Settings`: Directives, dialect and components.
* `Settings.toOptions`: The options of settings, with a function on text.
-/

namespace SoleRoot

/-- What can be written down about how to transform a text. -/
structure Settings where
  once : Bool := false
  pre : Bool := false
  mode : Mode := .permissive
  components : Registry := {}
  deriving DecidableEq, Repr, Inhabited

namespace Settings

/-- The directives asked for. -/
def directives (s : Settings) : DirectiveSet :=
  ⟨s.once, s.pre⟩

/-- The hook of settings with a function on text. -/
def hook (s : Settings) (preprocessor : Option Preprocessor) : Option Hook :=
  if s.components.isEmpty then preprocessor.map .preprocess
  else some (.components preprocessor s.components)

/-- The options of settings with a function on text. -/
def toOptions (s : Settings) (preprocessor : Option Preprocessor) : Options :=
  ⟨s.directives, s.mode, s.hook preprocessor⟩

end Settings

end SoleRoot

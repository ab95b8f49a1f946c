import SoleRoot.Component.Source
import SoleRoot.Pipeline
import SoleRoot.Text.Quoted

/-!
# Transforming Markup

From a text of markup to the source of a component.

The options say how: the dialect, the directives of the root, and a hook. A
hook is a function on the text before it is read, or components for the script
with or without such a function; the two kinds are told apart even where they
do the same.

## Main definitions

* `Hook`, `Options`: How to transform a text.
* `transform`: The source of a component.
* `Options.describe`: The options in a line, for people who look for a mistake.
-/

namespace SoleRoot

/-- What a caller adds to a transformation. -/
inductive Hook where
  /-- A function on the text. -/
  | preprocess (preprocessor : Preprocessor)
  /-- Components, and perhaps a function on the text. -/
  | components (preprocessor : Option Preprocessor) (registry : Registry)

namespace Hook

/-- The function on the text. -/
def preprocessor? : Hook → Option Preprocessor
  | preprocess p => some p
  | components p _ => p

/-- The components. -/
def registry? : Hook → Option Registry
  | preprocess _ => none
  | components _ registry => some registry

end Hook

/-- How to transform a text. -/
structure Options where
  directives : DirectiveSet := {}
  mode : Mode := .permissive
  hook : Option Hook := none

namespace Options

/-- The function on the text, if there is one. -/
def preprocessor? (o : Options) : Option Preprocessor :=
  o.hook.bind Hook.preprocessor?

/-- The components, if there are any to register. -/
def registry? (o : Options) : Option Registry :=
  o.hook.bind Hook.registry?

end Options

/-- The source of the component that a text of markup makes. -/
def transform (options : Options) (source : String) : Except Failure String := do
  let root ← resolve options.mode options.directives options.preprocessor? source
  .ok (componentSource root.serialize options.registry?)

namespace DirectiveSet

/-- The directives in a line. -/
def describe (d : DirectiveSet) : String :=
  s!"DirectiveSet \x7b once: {d.once}, pre: {d.pre} \x7d"

end DirectiveSet

namespace Mode

/-- The dialect in a line. -/
def describe : Mode → String
  | permissive => "Permissive"
  | faithful => "Faithful"

end Mode

namespace Import

/-- The import in a line. -/
def describe (i : Import) : String :=
  s!"ComponentImport \x7b name: {Text.quoted i.name}, module: {Text.quoted i.module} \x7d"

end Import

namespace Registry

/-- The registry in a line. -/
def describe (r : Registry) : String :=
  let entries := ", ".intercalate (r.entries.map Import.describe)
  s!"ComponentRegistry \x7b entries: [{entries}] \x7d"

end Registry

namespace Hook

/-- What stands in a line for a function, whose text nobody knows. -/
def function : String := "\"<fn>\""

/-- The hook in a line. -/
def describe : Hook → String
  | preprocess _ => s!"Transformer({function})"
  | components p registry =>
    let transformer := if p.isSome then s!"Some({function})" else "None"
    s!"WithComponents \x7b transformer: {transformer}, components: {registry.describe} \x7d"

end Hook

namespace Options

/-- The options in a line. -/
def describe (o : Options) : String :=
  let hook := match o.hook with
    | none => "None"
    | some hook => s!"Some({hook.describe})"
  s!"TransformOptions \x7b directives: {o.directives.describe}, " ++
    s!"mode: {o.mode.describe}, transform: {hook} \x7d"

end Options

end SoleRoot

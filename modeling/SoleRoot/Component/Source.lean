import SoleRoot.Component.Literal
import SoleRoot.Component.Registry

/-!
# Component Sources

The source of a component: its template, and a script that imports and
registers other components.

The template block holds the root's text as it is. The script block has a line
for each import and a line that names them all; a registry without imports has
none.

## Main definitions

* `templateBlock`, `scriptBlock?`: The blocks.
* `componentSource`: The source.
-/

namespace SoleRoot

/-- The template block around a root's text. -/
def templateBlock (markup : String) : String :=
  "<template>" ++ markup ++ "</template>"

namespace Import

/-- The line of a script that imports a component. -/
def line (i : Import) : String :=
  "import " ++ i.name ++ " from " ++ scriptLiteral i.module ++ ";\n"

end Import

namespace Registry

/-- The line of a script that registers all components. -/
def exportLine (r : Registry) : String :=
  "export default \x7b components: \x7b " ++ ", ".intercalate r.names ++ " \x7d \x7d;\n"

/-- The script block of a registry that has imports. -/
def scriptBlock? (r : Registry) : Option String :=
  if r.isEmpty then none
  else some ("<script>\n" ++ String.join (r.entries.map Import.line) ++ r.exportLine ++ "</script>")

end Registry

/-- The source of a component. -/
def componentSource (markup : String) (registry : Option Registry) : String :=
  match registry.bind Registry.scriptBlock? with
  | some script => templateBlock markup ++ "\n" ++ script
  | none => templateBlock markup

end SoleRoot

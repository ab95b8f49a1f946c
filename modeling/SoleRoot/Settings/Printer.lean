import SoleRoot.Json.Printer
import SoleRoot.Settings

/-!
# Writing Settings

Settings and their parts as structured text.

Everything is first made a value and then written without white space. An
object's members come in a fixed order, and those of a registry in its own.
Settings leave their components out if there are none.

## Main definitions

* `Mode.toValue`, `DirectiveSet.toValue`, `Import.toValue`, `Registry.toValue`,
  `Settings.toValue`: The values.
-/

namespace SoleRoot

open Json

namespace Mode

/-- The value of a dialect. -/
def toValue (m : Mode) : Value :=
  .string m.name

end Mode

namespace DirectiveSet

/-- The value of directives. -/
def toValue (d : DirectiveSet) : Value :=
  .object [("once", .boolean d.once), ("pre", .boolean d.pre)]

end DirectiveSet

namespace Import

/-- The value of an import. -/
def toValue (i : Import) : Value :=
  .object [("name", .string i.name), ("module", .string i.module)]

end Import

namespace Registry

/-- The value of a registry. -/
def toValue (r : Registry) : Value :=
  .object (r.entries.map fun i => (i.name, .string i.module))

end Registry

namespace Settings

/-- The member for the components, if there are any. -/
def componentMembers (s : Settings) : List (String × Value) :=
  if s.components.isEmpty then [] else [("components", s.components.toValue)]

/-- The value of settings. -/
def toValue (s : Settings) : Value :=
  .object (
    [("vOnce", .boolean s.once), ("vPre", .boolean s.pre), ("mode", s.mode.toValue)] ++
      s.componentMembers)

end Settings

end SoleRoot

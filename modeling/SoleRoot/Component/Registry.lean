/-!
# Component Registries

The components that a template may use, and the modules they come from.

A registry is a list of imports in the order in which their names were first
given. Giving a name again replaces its module and leaves everything else where
it is, so no name stands twice.

## Main definitions

* `Import`: A component's name and its module.
* `Registry`: Imports in order.
* `Registry.exchange`: Imports a module for a name, and says which one it replaces.
* `Registry.insert`, `Registry.extend`: Imports more.
* `Registry.get?`: The module of a name.
-/

namespace SoleRoot

/-- A component and the module it comes from. -/
structure Import where
  name : String
  module : String
  deriving DecidableEq, Repr, Inhabited

/-- Imports in the order of their names' first insertion. -/
structure Registry where
  entries : List Import := []
  deriving DecidableEq, Repr, Inhabited

namespace Registry

/-- The module of a name. -/
def get? (r : Registry) (name : String) : Option String :=
  (r.entries.find? (·.name == name)).map (·.module)

/-- The names, in order. -/
def names (r : Registry) : List String :=
  r.entries.map (·.name)

/-- The number of imports. -/
def size (r : Registry) : Nat :=
  r.entries.length

/-- Whether there are no imports. -/
def isEmpty (r : Registry) : Bool :=
  r.entries.isEmpty

/-- Imports with a module for a name, which keeps its place if it has one, behind
    the module that the name had. -/
def exchangeEntry (name module : String) : List Import → Option String × List Import
  | [] => (none, [⟨name, module⟩])
  | i :: is =>
    if i.name = name then (some i.module, { i with module } :: is)
    else
      let (replaced, is) := exchangeEntry name module is
      (replaced, i :: is)

/-- The registry with a module for a name, behind the module that the name had. -/
def exchange (r : Registry) (name module : String) : Option String × Registry :=
  let (replaced, entries) := exchangeEntry name module r.entries
  (replaced, ⟨entries⟩)

/-- The registry with a module for a name. -/
def insert (r : Registry) (name module : String) : Registry :=
  (r.exchange name module).2

/-- The registry with a module for each of several names, in order. -/
def extend (r : Registry) (pairs : List (String × String)) : Registry :=
  pairs.foldl (fun r p => r.insert p.1 p.2) r

/-- The registry of several names with their modules. -/
def ofList (pairs : List (String × String)) : Registry :=
  extend {} pairs

end Registry

end SoleRoot

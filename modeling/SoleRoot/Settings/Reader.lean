import SoleRoot.Json.Record
import SoleRoot.Json.Value
import SoleRoot.Settings

/-!
# Reading Settings

Settings and their parts from structured text.

Every setting may be left out. Two of them have a second name. A dialect is its
name, or an object with its name as a key and nothing behind it. A registry is
an object of strings, in which the last module of a name counts and the first
place; it can also be taken from a value that is already there.

## Main definitions

* `Mode.read`, `Registry.read`: Parts that are no records.
* `DirectiveSet.shape`, `Import.shape`, `Settings.shape`: Records.
* `Registry.ofText`, `Registry.ofValue`: The registry of a text and of a value.
* `Settings.ofText`: The settings of a text.
-/

namespace SoleRoot

open Json

namespace Mode

/-- The dialect of a name, or the fault that there is none. -/
def resolve (name : String) (c : Cursor) : Except Fault Mode :=
  match ofName? name with
  | some mode => .ok mode
  | none => c.fail (.unknownVariant name (all.map Mode.name))

/-- Read a dialect that is written as an object, behind its opening bracket. -/
def readTagged : Reader Mode := fun c => do
  let (name, c) ← readString "variant identifier" c
  let mode ← resolve name c
  let c ← readColon c
  let (_, c) ← readUnit c
  let c := c.skipSpace
  if c.peek? = some '\x7d' then .ok (mode, c.next)
  else c.fail (if c.rest.isEmpty then .endOfObject else .expectedValue)

/-- Read a dialect. -/
def read : Reader Mode := fun c =>
  let c := c.skipSpace
  if c.peek? = some '"' then do
    let (name, c) ← readQuoted c.next
    let mode ← resolve name c
    .ok (mode, c)
  else if c.peek? = some '\x7b' then readTagged c.next
  else c.failAtNext .endOfValue .expectedValue

end Mode

namespace Registry

/-- What a registry is called in messages. -/
def title : String := "a map of component names to module specifiers"

/-- What a module is called in messages. -/
def moduleTitle : String := "a string"

/-- Read a member: the module of a name. -/
def readMember (r : Registry) (name : String) : Reader Registry := fun c => do
  let c ← readColon c
  let (module, c) ← readString moduleTitle c
  .ok (r.insert name module, c)

/-- Read a registry. -/
def read : Reader Registry := fun c => do
  match ← readKind c with
  | (.map, c) => do
    let (r, c) ← readMembers readMember {} c.next
    .ok (r, c.next)
  | (found, c) => wrongKind title found c

/-- The registry of a text. -/
def ofText (source : String) : Except Complaint Registry :=
  readAll read source

/-- The registry with the modules of an object's members, all of which have to
    be strings. -/
def ofMembers (r : Registry) : List (String × Value) → Except Cause Registry
  | [] => .ok r
  | (name, .string module) :: ms => ofMembers (r.insert name module) ms
  | (_, v) :: _ => .error (.invalidType (Kind.ofValue v) moduleTitle)

/-- The registry of a value. -/
def ofValue : Value → Except Cause Registry
  | .object members => ofMembers {} members
  | v => .error (.invalidType (Kind.ofValue v) title)

end Registry

namespace DirectiveSet

/-- The fields of directives. -/
def shape : Shape DirectiveSet where
  name := "DirectiveSet"
  start := {}
  fields := [
    .of "once" [] false readBoolean fun d b => { d with once := b },
    .of "pre" [] false readBoolean fun d b => { d with pre := b }]

end DirectiveSet

namespace Import

/-- The fields of an import. -/
def shape : Shape Import where
  name := "ComponentImport"
  start := ⟨"", ""⟩
  fields := [
    .of "name" [] true (readString "a string") fun i s => { i with name := s },
    .of "module" [] true (readString "a string") fun i s => { i with module := s }]

end Import

namespace Settings

/-- The fields of settings. -/
def shape : Shape Settings where
  name := "LoaderConfig"
  start := {}
  fields := [
    .of "vOnce" ["v_once"] false readBoolean fun s b => { s with once := b },
    .of "vPre" ["v_pre"] false readBoolean fun s b => { s with pre := b },
    .of "mode" [] false Mode.read fun s m => { s with mode := m },
    .of "components" [] false Registry.read fun s r => { s with components := r }]

/-- The settings of a text. -/
def ofText (source : String) : Except Complaint Settings :=
  readAll shape.read source

end Settings

end SoleRoot

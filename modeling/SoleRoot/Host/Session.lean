import SoleRoot.Settings.Reader

/-!
# Sessions

What a host that keeps a transformer hands over, and what it gets back.

A host's request names the dialect as a text and the components as a value, and
both may be wrong. The dialect is looked at first. What is then wrong with a
text of markup is an invalid argument as well, while a failure of a function on
text would not be; but a host has no such functions.

## Main definitions

* `Request`: What a host asks for.
* `Refusal`: Why a host gets nothing.
* `Request.settings`: The settings that a request asks for.
* `Request.transform`: The component that a request makes of a text.
-/

namespace SoleRoot

namespace Host

/-- What a host asks for. What is missing is left at its default. -/
structure Request where
  once : Option Bool := none
  pre : Option Bool := none
  mode : Option String := none
  components : Option Json.Value := none
  deriving Repr, Inhabited

/-- Whose fault it is that a host gets nothing. -/
inductive Status where
  | invalidArgument
  | generalFailure
  deriving DecidableEq, Repr

namespace Status

/-- The name of a status. -/
def name : Status → String
  | invalidArgument => "InvalidArg"
  | generalFailure => "GenericFailure"

end Status

/-- Why a host gets nothing. -/
inductive Refusal where
  /-- There is no dialect of the name. -/
  | mode (name : String)
  /-- The components are not an object of strings. -/
  | components (cause : Json.Cause)
  /-- The text has no root. -/
  | failure (f : Failure)
  deriving Repr

namespace Refusal

/-- Whose fault it is. -/
def status : Refusal → Status
  | failure (.preprocessing _) => .generalFailure
  | _ => .invalidArgument

/-- The message shown to a person. -/
def message : Refusal → String
  | mode name => s!"Unknown mode '{name}': expected \"permissive\" or \"faithful\""
  | components cause => s!"Invalid components map: {cause.message}"
  | failure f => f.message

end Refusal

namespace Request

/-- The dialect that a request asks for. -/
def dialect (r : Request) : Except Refusal Mode :=
  match r.mode with
  | none => .ok .permissive
  | some name =>
    match Mode.ofName? name with
    | some mode => .ok mode
    | none => .error (.mode name)

/-- The components that a request asks for. -/
def registry (r : Request) : Except Refusal Registry :=
  match r.components with
  | none => .ok {}
  | some v => (Registry.ofValue v).mapError .components

/-- The settings that a request asks for. -/
def settings (r : Request) : Except Refusal Settings := do
  let mode ← r.dialect
  let components ← r.registry
  .ok ⟨r.once.getD false, r.pre.getD false, mode, components⟩

end Request

/-- A transformer that is made once and then used for many texts. -/
structure Session where
  options : Options

namespace Session

/-- The session that a request asks for. -/
def open? (r : Request) : Except Refusal Session :=
  r.settings.map fun s => ⟨s.toOptions none⟩

/-- The component that a text makes. -/
def transform (s : Session) (source : String) : Except Refusal String :=
  (SoleRoot.transform s.options source).mapError .failure

end Session

namespace Request

/-- The component that a request makes of a text. -/
def transform (r : Request) (source : String) : Except Refusal String := do
  let s ← r.settings
  (SoleRoot.transform (s.toOptions none) source).mapError .failure

end Request

end Host

end SoleRoot

import SoleRoot.Json.Reader

/-!
# Records

Reading a record: an object with fixed fields.

A field may have several names, of which messages use the first. It may be
given once, under any of its names, and members that are no field of the record
are looked through. A record may also be written as an array of its fields in
order, and then fields may be left out at the end.

A field that is not given keeps its value from the record's start, unless it is
required.

## Main definitions

* `Field`, `Shape`: The fields of a record.
* `Shape.read`: A record.
-/

namespace SoleRoot

namespace Json

/-- A field of a record. -/
structure Field (α : Type) where
  name : String
  otherNames : List String := []
  required : Bool := false
  /-- Read the field's value into a record. -/
  read : α → Reader α

/-- The fields of a record, and the record in which none is given. -/
structure Shape (α : Type) where
  name : String
  start : α
  fields : List (Field α)

namespace Field

/-- A field whose value is read and then put into the record. -/
def of {α β : Type} (name : String) (otherNames : List String) (required : Bool)
    (read : Reader β) (put : α → β → α) : Field α where
  name
  otherNames
  required
  read a c := (read c).map fun (b, c) => (put a b, c)

/-- Whether a key is a name of the field. -/
def answersTo {α : Type} (f : Field α) (key : String) : Bool :=
  key == f.name || f.otherNames.contains key

end Field

namespace Shape

/-- What a record is called in messages. -/
def title {α : Type} (s : Shape α) : String :=
  s!"struct {s.name}"

/-- Read a member: the value of a field that is not yet given, or a value that
    nobody asks for. -/
def readMember {α : Type} (s : Shape α) (given : List String × α) (key : String) :
    Reader (List String × α) := fun c =>
  match s.fields.find? (·.answersTo key) with
  | none => do
    let c ← readColon c
    let c ← skipValue c
    .ok (given, c)
  | some f =>
    if given.1.contains f.name then (c.skipClosing '\x7d').fail (.duplicateField f.name)
    else do
      let c ← readColon c
      let (a, c) ← f.read given.2 c
      .ok ((f.name :: given.1, a), c)

/-- Read a record that is written as an object, behind its opening bracket. -/
def readObject {α : Type} (s : Shape α) : Reader α := fun c => do
  let ((given, a), c) ← readMembers s.readMember ([], s.start) c
  match s.fields.find? fun f => f.required && !given.contains f.name with
  | some f => c.next.fail (.missingField f.name)
  | none => .ok (a, c.next)

/-- Read the fields of a record in order, from the one with a number on. -/
def readFields {α : Type} (s : Shape α) (number : Nat) : List (Field α) → α → Reader α
  | [], a, c => .ok (a, c)
  | f :: fs, a, c => do
    match ← readElement? (number == 0) c with
    | (true, c) => do
      let (a, c) ← f.read a c
      readFields s (number + 1) fs a c
    | (false, c) =>
      if f.required then
        c.next.fail (.invalidLength number s!"{s.title} with {s.fields.length} elements")
      else readFields s (number + 1) fs a c

/-- Read a record that is written as an array, behind its opening bracket. -/
def readArray {α : Type} (s : Shape α) : Reader α := fun c => do
  let (a, c) ← s.readFields 0 s.fields s.start c
  let c ← readListEnd c
  .ok (a, c)

/-- Read a record. -/
def read {α : Type} (s : Shape α) : Reader α := fun c => do
  match ← readKind c with
  | (.map, c) => s.readObject c.next
  | (.sequence, c) => s.readArray c.next
  | (found, c) => wrongKind s.title found c

end Shape

end Json

end SoleRoot

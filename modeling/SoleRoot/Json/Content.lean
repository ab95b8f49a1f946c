import SoleRoot.Json.Printer
import SoleRoot.Json.Reader

/-!
# Reading Any Value

Reading a value of whatever kind it is.

The depth to which a value may be nested is bounded by the number of its
characters, which every value keeps to, so no value is too deep.

## Main definitions

* `readValue`: A value.
* `Value.read`: The value that a text stands for.
-/

namespace SoleRoot

namespace Json

/-- Fold a step over the elements of an array, up to its closing bracket. -/
def foldElements (read : Reader Value) : Nat → Bool → List Value → Reader (List Value)
  | 0, _, _, c => c.fail .endOfList
  | rounds + 1, first, elements, c => do
    match ← readElement? first c with
    | (false, c) => .ok (elements.reverse, c)
    | (true, c) => do
      let (v, c) ← read c
      foldElements read rounds false (v :: elements) c

/-- Read a value nested to at most some depth. -/
def readNested : Nat → Reader Value
  | 0, c => c.fail .endOfValue
  | depth + 1, c => do
    match ← readKind c with
    | (.null, c) => .ok (.null, c)
    | (.boolean value, c) => .ok (.boolean value, c)
    | (.number value, c) => .ok (.number value, c)
    | (.string value, c) => .ok (.string value, c)
    | (.sequence, c) => do
      let (elements, c) ← foldElements (readNested depth) (c.rest.length + 1) true [] c.next
      .ok (.array elements, c.next)
    | (.map, c) => do
      let member (members : List (String × Value)) (key : String) : Reader _ := fun c => do
        let c ← readColon c
        let (v, c) ← readNested depth c
        .ok (putMember key v members, c)
      let (members, c) ← readMembers member [] c.next
      .ok (.object members, c.next)

/-- Read a value. -/
def readValue : Reader Value := fun c =>
  readNested (c.rest.length + 1) c

namespace Value

/-- The value that a text stands for. -/
def read (source : String) : Except Complaint Value :=
  readAll readValue source

end Value

end Json

end SoleRoot

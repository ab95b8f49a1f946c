import SoleRoot.Json.Decimal

/-!
# Values

The values that a structured text stands for.

An object keeps its members in the order in which their keys first came, and no
key comes twice. A number is an integer as long as sixty-four bits hold it, and
a floating point number otherwise.

## Main definitions

* `Number`, `Value`: Values.
* `Value.member?`: The member of an object.
* `putMember`: Members with one more, or with another value for a key.
-/

namespace SoleRoot

namespace Json

/-- A number. -/
inductive Number where
  | integer (value : Int)
  | float (value : Float)
  deriving Repr, Inhabited

/-- A value. -/
inductive Value where
  | null
  | boolean (value : Bool)
  | number (value : Number)
  | string (value : String)
  | array (elements : List Value)
  | object (members : List (String × Value))
  deriving Repr, Inhabited

/-- Members with a value for a key, which keeps its place if it has one. -/
def putMember (key : String) (value : Value) : List (String × Value) → List (String × Value)
  | [] => [(key, value)]
  | m :: ms => if m.1 = key then (key, value) :: ms else m :: putMember key value ms

namespace Value

/-- The member of an object. -/
def member? (v : Value) (key : String) : Option Value :=
  match v with
  | object members => members.lookup key
  | _ => none

end Value

end Json

end SoleRoot

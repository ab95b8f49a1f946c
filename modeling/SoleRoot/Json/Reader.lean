import SoleRoot.Json.Skip

/-!
# Reading Values

Reading a value of a kind that is known beforehand.

A value that is not of that kind is a fault, and its message says what was
found. So a word, a number or a string is read to its end before it is refused,
while a bracket is refused as soon as it is seen.

Objects and arrays are read by folding a step over their members or elements.
The step for a member reads the colon and the value itself, because some faults
come between a key and its colon.

## Main definitions

* `readKind`: What comes next, read to its end if it has no brackets.
* `readBoolean`, `readString`, `readUnit`: Values without brackets.
* `foldMembers`, `readMembers`: The members of an object.
* `readElement?`: The next element of an array.
* `readAll`: A value that is all of a text.
-/

namespace SoleRoot

namespace Json

/-- Read what comes next, up to its end unless it is a bracket. -/
def readKind (c : Cursor) : Except Fault (Kind × Cursor) :=
  let c := c.skipSpace
  let word (k : Kind) (letters : List Char) := (Cursor.readWord letters c).map fun c => (k, c)
  match c.peek? with
  | none => c.fail .endOfValue
  | some x =>
    if x = 'n' then word .null ['n', 'u', 'l', 'l']
    else if x = 't' then word (.boolean true) ['t', 'r', 'u', 'e']
    else if x = 'f' then word (.boolean false) ['f', 'a', 'l', 's', 'e']
    else if x = '"' then (readQuoted c.next).map fun (s, c) => (.string s, c)
    else if x = '-' ∨ x.isDigit then (readNumber c).map fun (n, c) => (.number n, c)
    else if x = '[' then .ok (.sequence, c)
    else if x = '\x7b' then .ok (.map, c)
    else c.failAhead .expectedValue

/-- Refuse a value for its kind. -/
def wrongKind {α : Type} (expected : String) (found : Kind) (c : Cursor) : Except Fault α :=
  c.fail (.invalidType found expected)

/-- Read a boolean. -/
def readBoolean : Reader Bool := fun c => do
  match ← readKind c with
  | (.boolean value, c) => .ok (value, c)
  | (found, c) => wrongKind "a boolean" found c

/-- Read a string. -/
def readString (expected : String) : Reader String := fun c => do
  match ← readKind c with
  | (.string value, c) => .ok (value, c)
  | (found, c) => wrongKind expected found c

/-- Read the value that says nothing. -/
def readUnit : Reader Unit := fun c => do
  match ← readKind c with
  | (.null, c) => .ok ((), c)
  | (found, c) => wrongKind "unit" found c

/-- Read the colon behind a key. -/
def readColon (c : Cursor) : Except Fault Cursor :=
  c.readMark ':' .endOfObject .expectedColon

/-- Read the key of the next member of an object, if there is one. -/
def readKey? (first : Bool) (c : Cursor) : Except Fault (Option String × Cursor) :=
  let key (c : Cursor) := (readQuoted c.next).map fun (s, c) => (some s, c)
  let c := c.skipSpace
  if c.rest.isEmpty then c.fail .endOfObject
  else if c.peek? = some '\x7d' then .ok (none, c)
  else if first then
    if c.peek? = some '"' then key c else c.failAhead .keyNotString
  else if c.peek? = some ',' then
    let c := c.next.skipSpace
    if c.peek? = some '"' then key c
    else if c.peek? = some '\x7d' then c.failAhead .trailingComma
    else c.failAtNext .endOfValue .keyNotString
  else c.failAhead .expectedObjectComma

/-- Find the next element of an array, if there is one. -/
def readElement? (first : Bool) (c : Cursor) : Except Fault (Bool × Cursor) :=
  let c := c.skipSpace
  if c.rest.isEmpty then c.fail .endOfList
  else if c.peek? = some ']' then .ok (false, c)
  else if first then .ok (true, c)
  else if c.peek? = some ',' then
    let c := c.next.skipSpace
    if c.peek? = some ']' then c.failAhead .trailingComma
    else if c.rest.isEmpty then c.fail .endOfValue
    else .ok (true, c)
  else c.failAhead .expectedListComma

/-- Read the end of an array. -/
def readListEnd (c : Cursor) : Except Fault Cursor :=
  let c := c.skipSpace
  if c.peek? = some ']' then .ok c.next
  else if c.peek? = some ',' then
    let c := c.next.skipSpace
    c.failAhead (if c.peek? = some ']' then .trailingComma else .trailingCharacters)
  else c.failAtNext .endOfList .trailingCharacters

/-- Fold a step over the members of an object, up to its closing bracket. -/
def foldMembers {σ : Type} (step : σ → String → Reader σ) : Nat → Bool → σ → Reader σ
  | 0, _, _, c => c.fail .endOfObject
  | rounds + 1, first, s, c => do
    match ← readKey? first c with
    | (none, c) => .ok (s, c)
    | (some key, c) => do
      let (s, c) ← step s key c
      foldMembers step rounds false s c

/-- Fold a step over the members of an object, from behind its opening bracket
    up to its closing one. Each member takes at least one character. -/
def readMembers {σ : Type} (step : σ → String → Reader σ) (start : σ) : Reader σ := fun c =>
  foldMembers step (c.rest.length + 1) true start c

/-- Read a value that is all of a text. -/
def readAll {α : Type} (read : Reader α) (source : String) : Except Complaint α :=
  let result := do
    let (value, c) ← read (.ofText source)
    let c := c.skipSpace
    if c.rest.isEmpty then .ok value else c.failAhead .trailingCharacters
  result.mapError (Fault.toComplaint source.toList)

end Json

end SoleRoot

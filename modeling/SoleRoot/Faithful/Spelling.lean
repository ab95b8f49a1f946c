/-!
# Recorded Spelling

How a spelling is kept when most are the usual one.

A tree records the white space of its tags only where it is not what a writer
would put there anyway. `unusual?` is what is recorded and `spelling` is what
is written; `spelling_unusual?` says that writing gives back what was read.

## Main definitions

* `unusual?`: The record of a spelling.
* `spelling`: The spelling that a record stands for.

## Theorems

* `spelling_unusual?`: Writing a record gives the spelling it was made from.
-/

namespace SoleRoot

namespace Faithful

/-- The record of a spelling: nothing if it is the usual one. -/
def unusual? (usual cs : List Char) : Option String :=
  if cs = usual then none else some (String.ofList cs)

/-- The spelling that a record stands for. -/
def spelling (usual : List Char) : Option String → List Char
  | none => usual
  | some s => s.toList

@[simp] theorem spelling_none (usual : List Char) : spelling usual none = usual := rfl

@[simp] theorem spelling_some (usual : List Char) (s : String) :
    spelling usual (some s) = s.toList := rfl

@[simp] theorem spelling_unusual? (usual cs : List Char) :
    spelling usual (unusual? usual cs) = cs := by
  unfold unusual?
  split <;> simp_all

end Faithful

end SoleRoot

import SoleRoot.Proofs.Html.Nesting

/-!
# Numbers of Written Nodes

The items that are put into a tree when written nodes are read.

Elements are numbered as their start tags come: an element before what is inside
it, and that before what stands behind it. An element's name and attributes are
those of its token in the namespace of the place where it stands. The items inside
it are put there one by one, so texts that meet are joined.

`number` says all this of nodes that are read as they were written. It does not say
which nodes are.

## Main definitions

* `number`, `numberAll`: The items of a node and of a list of nodes, and the next
  number.

## Theorems

* `le_number`, `below_number`: The numbers are those between the first and the
  next.
* `Ready.filled_number`, `Ready.filled_numberAll`: The items may be put into the
  innermost element.
-/

namespace SoleRoot

namespace Html

mutual

/-- The item that a node becomes inside an element of the name `parent`, and the
    number behind its numbers, which start with `k`. -/
def number (parent : Name) (k : Nat) : Node → Item × Nat
  | .element tag children =>
    let name := childName parent tag.name
    let inside := numberAll name (k + 1) children
    (.element k name (Foreign.attributesIn name.space (tokenOf tag).attributes)
      (Item.gather inside.1), inside.2)
  | .text content => (.text content, k)
  | .comment content => (.comment content, k)
  | .cdata content => (.text content, k)

/-- The same for a list of nodes. -/
def numberAll (parent : Name) (k : Nat) : List Node → List Item × Nat
  | [] => ([], k)
  | n :: ns =>
    let first := number parent k n
    let others := numberAll parent first.2 ns
    (first.1 :: others.1, others.2)

end

mutual

/-- The number behind a node is not smaller than the first. -/
theorem le_number (parent : Name) (k : Nat) (n : Node) : k ≤ (number parent k n).2 := by
  match n with
  | .element tag children =>
      rw [number]
      exact Nat.le_of_succ_le (le_numberAll _ (k + 1) children)
  | .text content => rw [number]
  | .comment content => rw [number]
  | .cdata content => rw [number]

theorem le_numberAll (parent : Name) (k : Nat) (ns : List Node) :
    k ≤ (numberAll parent k ns).2 := by
  match ns with
  | [] => rw [numberAll]
  | n :: ns =>
      rw [numberAll]
      exact Nat.le_trans (le_number parent k n) (le_numberAll parent _ ns)

end

mutual

/-- All numbers of a node are smaller than the number behind them. -/
theorem below_number (parent : Name) (k : Nat) (n : Node) :
    (number parent k n).1.every (Item.Below (number parent k n).2) := by
  match n with
  | .element tag children =>
      rw [number, Item.every]
      -- The element has the first number, and what is inside it has the others.
      exact ⟨le_numberAll _ (k + 1) children,
        Item.everyAll_gather (belowAll_numberAll _ (k + 1) children)⟩
  | .text content => rw [number]; exact Item.every_text _ _
  | .comment content => rw [number]; exact Item.every_comment _ _
  | .cdata content => rw [number]; exact Item.every_text _ _

/-- The same for a list of nodes. -/
theorem belowAll_numberAll (parent : Name) (k : Nat) (ns : List Node) :
    Item.everyAll (Item.Below (numberAll parent k ns).2) (numberAll parent k ns).1 := by
  match ns with
  | [] => rw [numberAll, Item.everyAll]; trivial
  | n :: ns =>
      rw [numberAll, Item.everyAll]
      -- The nodes behind the first one move the next number up.
      exact ⟨Item.below_mono (le_numberAll parent _ ns) (below_number parent k n),
        belowAll_numberAll parent _ ns⟩

end

section Filling

variable {names : List Name} {b : Builder} {formatting : List Entry}

/-- The item of a node may be put into the innermost element. -/
theorem Ready.filled_number (h : Ready names b) (n : Node)
    (hsub : formatting.Sublist b.formatting) :
    Ready names (b.filled [(number b.current.name b.nextId n).1]
      (number b.current.name b.nextId n).2 formatting) :=
  h.filled (le_number _ _ n) (Item.everyAll_singleton.2 (below_number _ _ n)) hsub

/-- So may the items of a list of nodes. -/
theorem Ready.filled_numberAll (h : Ready names b) (ns : List Node)
    (hsub : formatting.Sublist b.formatting) :
    Ready names (b.filled (numberAll b.current.name b.nextId ns).1
      (numberAll b.current.name b.nextId ns).2 formatting) :=
  h.filled (le_numberAll _ _ ns) (belowAll_numberAll _ _ ns) hsub

end Filling

end Html

end SoleRoot

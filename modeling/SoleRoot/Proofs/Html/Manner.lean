import SoleRoot.Proofs.Html.Unescaped

/-!
# Manners of Writing

Different ways to write a tree as HTML, and what is left of the tree.

The printer leaves out the end tag and the content of some elements, and the escapes
directly inside some others. It knows both by their names. A reader knows them by
their names, too, but only where they are elements of HTML. Elsewhere an element
without end tag is still open when what stands behind it is read, and a text without
escapes is decoded.

A `Manner` says which names are treated so. That of the printer is one, and another
treats no name so, which spells a tree out. `settleAll` says what such a reader makes
of nodes that were written in a manner. An element without end tag takes over all
that stands behind it in its parent, so nothing of a list is left but what came
before, and that element.

## Main definitions

* `Manner`: Which elements are written without their end or without escapes.
* `Manner.write`, `Manner.writeAll`: What is written of nodes.
* `Manner.settleAll`: What is read of them where no name is treated so.
* `Manner.quietAll`: Whether texts without escapes have no tags in them.
* `Manner.intactAll`: Whether all that is written is read again.

## Theorems

* `Manner.write_printed`: The printer writes in its manner.
* `Manner.settleAll_eq_iff`: Which nodes are left as they are.
-/

namespace SoleRoot

/-- An element with other nodes inside. -/
def Node.holding (ns : List Node) : Node → Node
  | .element tag _ => .element tag ns
  | .text content => .text content
  | .comment content => .comment content
  | .cdata content => .cdata content

namespace Html

open Reference

/-- A manner of writing. -/
structure Manner where
  /-- The names of elements of which only the start tag is written. -/
  void : List String
  /-- The names of elements directly inside which text is written as it is. -/
  raw : List String

namespace Manner

/-- The manner of the printer. -/
def printed : Manner :=
  ⟨voidNames, rawNames⟩

/-- Every element has both tags, and every text its escapes. -/
def spelledOut : Manner :=
  ⟨[], []⟩

variable (m : Manner)

mutual

/-- What is written of a node. `raw` says whether text is written as it is. -/
def write (raw : Bool) : Node → List Char
  | .element tag children =>
    if m.void.contains tag.name then startTag tag ++ ['>']
    else startTag tag ++ '>' :: writeAll (m.raw.contains tag.name) children ++ endTag tag
  | .text content => if raw then content.toList else escapeText content.toList
  | .cdata content => escapeText content.toList
  | .comment content => writeComment content

/-- What is written of a list of nodes. -/
def writeAll (raw : Bool) : List Node → List Char
  | [] => []
  | n :: ns => write raw n ++ writeAll raw ns

end

/-- Whether only the start tag of a node is written. -/
def isVoid : Node → Bool
  | .element tag _ => m.void.contains tag.name
  | .text _ => false
  | .comment _ => false
  | .cdata _ => false

mutual

/-- The node that is read where all texts are decoded. -/
def settle (raw : Bool) : Node → Node
  | .element tag children => .element tag (settleAll (m.raw.contains tag.name) children)
  | .text content => .text (if raw then String.ofList (decodeText content.toList) else content)
  | .comment content => .comment content
  | .cdata content => .cdata content

/-- The nodes that are read where, besides, elements without end tag stay open. -/
def settleAll (raw : Bool) : List Node → List Node
  | [] => []
  | n :: ns =>
    if m.isVoid n then [n.holding (settleAll raw ns)] else settle raw n :: settleAll raw ns

end

mutual

/-- Whether no bracket in a text without escapes is the start of a tag or a comment. -/
def quiet (raw : Bool) : Node → Bool
  | .element tag children =>
    m.void.contains tag.name || quietAll (m.raw.contains tag.name) children
  | .text content => !raw || decide (Quiet content.toList)
  | .comment _ => true
  | .cdata _ => true

/-- The same for all nodes of a list. -/
def quietAll (raw : Bool) : List Node → Bool
  | [] => true
  | n :: ns => quiet raw n && quietAll raw ns

end

mutual

/-- Whether texts without escapes have no references in them, and elements without end
    tag nothing inside and nothing behind them. -/
def intact (raw : Bool) : Node → Bool
  | .element tag children =>
    if m.void.contains tag.name then children.isEmpty
    else intactAll (m.raw.contains tag.name) children
  | .text content => !(raw && hasReference content.toList)
  | .comment _ => true
  | .cdata _ => true

/-- The same for a list of nodes. -/
def intactAll (raw : Bool) : List Node → Bool
  | [] => true
  | n :: ns => intact raw n && if m.isVoid n then ns.isEmpty else intactAll raw ns

end

section Lists

variable (raw : Bool) (tag : Tag) (children ns : List Node)

/-- An element without end tag takes over what stands behind it. -/
theorem settleAll_element :
    m.settleAll raw (.element tag children :: ns) =
      if m.void.contains tag.name then [.element tag (m.settleAll raw ns)]
      else .element tag (m.settleAll (m.raw.contains tag.name) children) ::
        m.settleAll raw ns := by
  rw [settleAll, settle]
  rfl

/-- A text takes over nothing. -/
theorem settleAll_text (content : String) :
    m.settleAll raw (.text content :: ns) =
      m.settle raw (.text content) :: m.settleAll raw ns := by
  rw [settleAll]
  rfl

end Lists

mutual

/-- The printer writes in its manner. -/
theorem write_printed (raw : Bool) (n : Node) : printed.write raw n = Html.write raw n := by
  match n with
  | .element tag children =>
      rw [write, Html.write, writeAll_printed (printed.raw.contains tag.name) children]
      rfl
  | .text content => rw [write, Html.write]
  | .comment content => rw [write, Html.write]
  | .cdata content => rw [write, Html.write]

/-- The same for a list of nodes. -/
theorem writeAll_printed (raw : Bool) (ns : List Node) :
    printed.writeAll raw ns = Html.writeAll raw ns := by
  match ns with
  | [] => rw [writeAll, Html.writeAll]
  | n :: ns => rw [writeAll, Html.writeAll, write_printed raw n, writeAll_printed raw ns]

end

/-- The nodes that are left as they are. -/
theorem settleAll_eq_iff (raw : Bool) (ns : List Node) :
    m.settleAll raw ns = ns ↔ m.intactAll raw ns = true := by
  match ns with
  | [] => simp only [settleAll, intactAll]
  | .element tag children :: ns =>
      rw [settleAll_element, intactAll, intact, Bool.and_eq_true, isVoid]
      split
      · -- What stands behind the element would have to be what is inside it, and nothing
        -- is left behind it.
        rw [List.isEmpty_iff, List.isEmpty_iff, List.cons.injEq, Node.element.injEq]
        constructor
        · rintro ⟨⟨_, hinside⟩, hbehind⟩
          rw [← hbehind, settleAll] at hinside
          exact ⟨hinside.symm, hbehind.symm⟩
        · rintro ⟨rfl, rfl⟩
          rw [settleAll]
          exact ⟨⟨rfl, rfl⟩, rfl⟩
      -- Otherwise the content and what follows are left as they are, each for itself.
      · rw [← settleAll_eq_iff _ children, ← settleAll_eq_iff raw ns, List.cons.injEq,
          Node.element.injEq, and_iff_right rfl]
  | .text content :: ns =>
      -- A text without escapes is left as it is if it has no references.
      have htext : (!(raw && hasReference content.toList)) = true ↔
          (if raw then String.ofList (decodeText content.toList) else content) = content := by
        cases raw with
        | false => simp
        | true =>
            rw [if_pos rfl, Bool.true_and, Bool.not_eq_true', ← decodeText_eq_self_iff,
              ← String.toList_inj, String.toList_ofList]
      rw [settleAll_text, settle, intactAll, intact, Bool.and_eq_true, isVoid,
        if_neg Bool.false_ne_true, ← settleAll_eq_iff raw ns, List.cons.injEq, Node.text.injEq,
        htext]
  | .comment content :: ns =>
      rw [settleAll, settle, intactAll, intact, isVoid, if_neg Bool.false_ne_true,
        if_neg Bool.false_ne_true, Bool.true_and, ← settleAll_eq_iff raw ns, List.cons.injEq,
        and_iff_right rfl]
  | .cdata content :: ns =>
      rw [settleAll, settle, intactAll, intact, isVoid, if_neg Bool.false_ne_true,
        if_neg Bool.false_ne_true, Bool.true_and, ← settleAll_eq_iff raw ns, List.cons.injEq,
        and_iff_right rfl]

mutual

theorem intact_spelledOut (n : Node) : spelledOut.intact false n = true := by
  match n with
  | .element tag children =>
      have hvoid : spelledOut.void.contains tag.name = false := rfl
      rw [intact, hvoid, if_neg Bool.false_ne_true]
      exact intactAll_spelledOut children
  | .text content => rw [intact, Bool.false_and, Bool.not_false]
  | .comment content => rw [intact]
  | .cdata content => rw [intact]

/-- Nodes that are spelled out are left as they are. -/
theorem intactAll_spelledOut (ns : List Node) : spelledOut.intactAll false ns = true := by
  match ns with
  | [] => rw [intactAll]
  | n :: ns =>
      have hvoid : spelledOut.isVoid n = false := by cases n <;> rfl
      rw [intactAll, intact_spelledOut n, hvoid, if_neg Bool.false_ne_true,
        intactAll_spelledOut ns, Bool.and_self]

end

mutual

theorem quiet_spelledOut (n : Node) : spelledOut.quiet false n = true := by
  match n with
  | .element tag children =>
      have hinside : spelledOut.quietAll (spelledOut.raw.contains tag.name) children = true :=
        quietAll_spelledOut children
      rw [quiet, hinside, Bool.or_true]
  | .text content => rw [quiet, Bool.not_false, Bool.true_or]
  | .comment content => rw [quiet]
  | .cdata content => rw [quiet]

/-- Where all texts have their escapes, no bracket in them starts a tag. -/
theorem quietAll_spelledOut (ns : List Node) : spelledOut.quietAll false ns = true := by
  match ns with
  | [] => rw [quietAll]
  | n :: ns => rw [quietAll, quiet_spelledOut n, quietAll_spelledOut ns, Bool.and_self]

end

end Manner

end Html

end SoleRoot

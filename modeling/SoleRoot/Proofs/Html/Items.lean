import Mathlib.Data.List.Chain
import SoleRoot.Html.Tree

/-!
# Putting Items Into a Tree

What changes to a growing tree amount to.

No change makes up elements. A condition on the elements of a tree that holds of all
that is put into it still holds when something was added, taken out or exchanged.
`every` says that a condition holds of all elements.

An addition finds its place by a number and goes over the whole tree, so what it
does to a part is known only if the number does not occur elsewhere. New numbers
are larger than all that were given before: the condition `Below` is the bound. An
element that was just put into the tree is then the only one of its number, and what
is put into it later might as well have been there from the start. This is
`append_append_element`, and by it the items that are read inside an element are
gathered in the element.

## Main definitions

* `Item.every`, `Item.everyAll`: All elements satisfy a condition.
* `Item.Below`: The condition that a number is smaller than a bound.
* `Item.appendEach`: Several additions to one element.
* `Item.gather`: What several additions make of an empty element.

## Theorems

* `Item.every_insert`, `Item.every_remove`, `Item.every_setChildren`: Conditions on all
  elements are kept by changes.
* `Item.append_fresh`: A number that does not occur changes nothing.
* `Item.append_append_element`: Filling an element after it was put in its place.
* `Item.append_append_text`: A text may be added in parts.
-/

namespace SoleRoot

namespace Html

namespace Item

mutual

/-- Whether all elements of an item satisfy a condition on their number, name and
    attributes. -/
def every (p : Nat → Name → List Attribute → Prop) : Item → Prop
  | element id name attributes children => p id name attributes ∧ everyAll p children
  | text _ => True
  | comment _ => True

/-- The same for all items of a list. -/
def everyAll (p : Nat → Name → List Attribute → Prop) : List Item → Prop
  | [] => True
  | i :: is => every p i ∧ everyAll p is

end

/-- Whether the number of an element is smaller than a bound. -/
abbrev Below (n : Nat) : Nat → Name → List Attribute → Prop :=
  fun id _ _ => id < n

/-- Whether an item is a text. -/
def isText : Item → Bool
  | text _ => true
  | _ => false

/-- Items put behind the last child of an element, one after the other. -/
def appendEach (id : Nat) (items : List Item) (tree : Item) : Item :=
  items.foldl (fun tree i => append id i tree) tree

/-- Items put one behind the other. Texts that meet are joined. -/
def gather (items : List Item) : List Item :=
  items.foldl (fun siblings i => attach i siblings) []

theorem appendEach_cons (id : Nat) (i : Item) (is : List Item) (tree : Item) :
    appendEach id (i :: is) tree = appendEach id is (append id i tree) := rfl

section Every

variable {p q : Nat → Name → List Attribute → Prop}

/-- No condition is on texts. -/
theorem every_text (p : Nat → Name → List Attribute → Prop) (content : String) :
    every p (.text content) := by
  rw [every]
  trivial

/-- Nor is one on comments. -/
theorem every_comment (p : Nat → Name → List Attribute → Prop) (content : String) :
    every p (.comment content) := by
  rw [every]
  trivial

mutual

/-- A condition may be weakened. -/
theorem every_mono (hpq : ∀ id name attributes, p id name attributes → q id name attributes)
    (i : Item) (h : every p i) : every q i := by
  match i with
  | element id name attributes children =>
      rw [every] at h ⊢
      exact ⟨hpq _ _ _ h.1, everyAll_mono hpq children h.2⟩
  | text content => exact every_text q content
  | comment content => exact every_comment q content

theorem everyAll_mono (hpq : ∀ id name attributes, p id name attributes → q id name attributes)
    (is : List Item) (h : everyAll p is) : everyAll q is := by
  match is with
  | [] => rw [everyAll]; trivial
  | i :: is =>
      rw [everyAll] at h ⊢
      exact ⟨every_mono hpq i h.1, everyAll_mono hpq is h.2⟩

end

/-- A bound may be raised. -/
theorem below_mono {n m : Nat} (hle : n ≤ m) {i : Item} (h : every (Below n) i) :
    every (Below m) i :=
  every_mono (fun _ _ _ hid => Nat.lt_of_lt_of_le hid hle) i h

theorem everyAll_append {is js : List Item} :
    everyAll p (is ++ js) ↔ everyAll p is ∧ everyAll p js := by
  induction is with
  | nil => simp [everyAll]
  | cons i is ih => rw [List.cons_append, everyAll, everyAll, ih, and_assoc]

theorem everyAll_singleton {i : Item} : everyAll p [i] ↔ every p i := by
  simp [everyAll]

theorem everyAll_reverse {is : List Item} : everyAll p is.reverse ↔ everyAll p is := by
  induction is with
  | nil => rfl
  | cons i is ih =>
      rw [List.reverse_cons, everyAll_append, ih, everyAll_singleton, everyAll, and_comm]

end Every

section Attach

variable {k : Nat} {name : Name} {attributes : List Attribute} {children siblings : List Item}

/-- Only texts join what they are put behind. -/
theorem attach_of_not_text {i : Item} (h : i.isText = false) (siblings : List Item) :
    attach i siblings = siblings ++ [i] := by
  cases i with
  | text content => exact Bool.noConfusion h
  | _ => rfl

/-- A text joins the text that it is put behind. -/
theorem attach_cases (i : Item) (siblings : List Item) :
    attach i siblings = siblings ++ [i] ∨
      ∃ start old new, siblings = start ++ [text old] ∧ i = text new ∧
        attach i siblings = start ++ [text (old ++ new)] := by
  unfold attach
  split
  · rename_i new old hlast
    rcases List.getLast?_eq_some_iff.1 hlast with ⟨start, rfl⟩
    exact .inr ⟨start, old, new, rfl, rfl, by rw [List.dropLast_concat]⟩
  · exact .inl rfl

/-- Behind siblings that do not end with a text nothing is joined. -/
theorem attach_of_apart {i : Item}
    (h : ∀ j ∈ siblings.getLast?, j.isText = true → i.isText = false) :
    attach i siblings = siblings ++ [i] := by
  rcases attach_cases i siblings with happend | ⟨start, old, new, rfl, rfl, _⟩
  · exact happend
  · exact Bool.noConfusion (h (text old) (by simp) rfl)

/-- A text may be attached in parts. -/
theorem attach_attach_text (a b : String) (siblings : List Item) :
    attach (text b) (attach (text a) siblings) = attach (text (a ++ b)) siblings := by
  have htext : ∀ start old new,
      attach (text new) (start ++ [text old]) = start ++ [text (old ++ new)] := by
    intro start old new
    simp [attach]
  rcases attach_cases (text a) siblings with happend | ⟨start, old, new, rfl, hnew, hjoined⟩
  · rw [happend, htext]
    -- Nothing was joined, and nothing is if both parts are attached at once.
    rcases attach_cases (text (a ++ b)) siblings with hboth | ⟨start, old, new, rfl, _, _⟩
    · exact hboth.symm
    · rw [htext] at happend
      exact absurd (congrArg List.length happend) (by simp)
  · rw [hjoined, ← Item.text.inj hnew, htext, htext, String.append_assoc]

/-- What is put behind siblings keeps a condition, joined or not. -/
theorem everyAll_attach {p : Nat → Name → List Attribute → Prop} {i : Item} (hi : every p i)
    (h : everyAll p siblings) : everyAll p (attach i siblings) := by
  rcases attach_cases i siblings with happend | ⟨start, old, new, rfl, _, hjoined⟩
  · rw [happend]
    exact everyAll_append.2 ⟨h, everyAll_singleton.2 hi⟩
  -- A text that was joined is a text still, and no condition is on texts.
  · rw [hjoined]
    exact everyAll_append.2 ⟨(everyAll_append.1 h).1, everyAll_singleton.2 (every_text p _)⟩

/-- Items that are put side by side keep a condition. -/
theorem everyAll_gather {p : Nat → Name → List Attribute → Prop} {is : List Item}
    (h : everyAll p is) : everyAll p (gather is) := by
  -- What was gathered so far keeps it at each step of the fold.
  have hfold (siblings : List Item) (hsiblings : everyAll p siblings) :
      everyAll p (is.foldl (fun siblings i => attach i siblings) siblings) := by
    induction is generalizing siblings with
    | nil => exact hsiblings
    | cons i is ih =>
        rw [everyAll] at h
        exact ih h.2 _ (everyAll_attach h.1 hsiblings)
  exact hfold [] (by rw [everyAll]; trivial)

/-- Items no two texts of which are neighbours stay as they are. -/
theorem foldl_attach {is : List Item}
    (h : List.IsChain (fun i j => i.isText = true → j.isText = false) (siblings ++ is)) :
    is.foldl (fun siblings i => attach i siblings) siblings = siblings ++ is := by
  induction is generalizing siblings with
  | nil => rw [List.foldl_nil, List.append_nil]
  | cons i is ih =>
      have happend : attach i siblings = siblings ++ [i] :=
        attach_of_apart fun j hj => (List.isChain_append.1 h).2.2 j hj i rfl
      rw [List.foldl_cons, happend, ih (by rwa [List.append_assoc]), List.append_assoc]
      rfl

theorem gather_singleton (i : Item) : gather [i] = [i] :=
  foldl_attach (List.isChain_singleton i)

end Attach

/-- An addition goes over a list part by part. -/
theorem appendAll_append (id : Nat) (x : Item) (is js : List Item) :
    appendAll id x (is ++ js) = appendAll id x is ++ appendAll id x js := by
  induction is with
  | nil => rw [appendAll]; rfl
  | cons i is ih => rw [List.cons_append, appendAll, appendAll, ih, List.cons_append]

mutual

/-- A number that does not occur changes nothing. -/
theorem append_fresh {k : Nat} (x : Item) (tree : Item) (h : every (Below k) tree) :
    append k x tree = tree := by
  match tree with
  | element id name attributes children =>
      rw [every] at h
      rw [append, if_neg (by omega), appendAll_fresh x children h.2]
  | text content => rw [append]
  | comment content => rw [append]

theorem appendAll_fresh {k : Nat} (x : Item) (is : List Item) (h : everyAll (Below k) is) :
    appendAll k x is = is := by
  match is with
  | [] => rw [appendAll]
  | i :: is =>
      rw [everyAll] at h
      rw [appendAll, append_fresh x i h.1, appendAll_fresh x is h.2]

end

section Fill

variable {k cur : Nat} {name : Name} {attributes : List Attribute} {children : List Item}

mutual

/-- An element may be filled after it was put in its place. -/
theorem append_append_element (x : Item) (tree : Item) (h : every (Below k) tree) :
    append k x (append cur (element k name attributes children) tree) =
      append cur (element k name attributes (attach x children)) tree := by
  match tree with
  | element id other attributes' siblings =>
      rw [every] at h
      have hid : id ≠ k := by omega
      rw [append, append]
      by_cases hcur : id = cur
      · -- The new element is the last of the siblings, and the only one of its number.
        rw [if_pos hcur, if_pos hcur, attach_of_not_text rfl, attach_of_not_text rfl, append,
          if_neg hid, appendAll_append, appendAll_fresh x siblings h.2, appendAll, appendAll,
          append, if_pos rfl]
      · rw [if_neg hcur, if_neg hcur, append, if_neg hid,
          appendAll_appendAll_element x siblings h.2]
  | text content => rw [append, append, append]
  | comment content => rw [append, append, append]

theorem appendAll_appendAll_element (x : Item) (is : List Item) (h : everyAll (Below k) is) :
    appendAll k x (appendAll cur (element k name attributes children) is) =
      appendAll cur (element k name attributes (attach x children)) is := by
  match is with
  | [] => rw [appendAll, appendAll, appendAll]
  | i :: is =>
      rw [everyAll] at h
      rw [appendAll, appendAll, appendAll, append_append_element x i h.1,
        appendAll_appendAll_element x is h.2]

end

/-- An element may be filled with several items after it was put in its place. -/
theorem appendEach_append_element_foldl (items : List Item) {tree : Item}
    (h : every (Below k) tree) :
    appendEach k items (append cur (element k name attributes children) tree) =
      append cur
        (element k name attributes (items.foldl (fun siblings i => attach i siblings) children))
        tree := by
  induction items generalizing children with
  | nil => rfl
  | cons i is ih => rw [appendEach_cons, append_append_element i tree h, ih, List.foldl_cons]

/-- An empty element may be filled with several items after it was put in its
    place. -/
theorem appendEach_append_element (items : List Item) {tree : Item} (h : every (Below k) tree) :
    appendEach k items (append cur (element k name attributes []) tree) =
      append cur (element k name attributes (gather items)) tree :=
  appendEach_append_element_foldl items h

/-- The root is filled with several items behind what it has. -/
theorem appendEach_element_foldl (items : List Item) :
    appendEach k items (element k name attributes children) =
      element k name attributes (items.foldl (fun siblings i => attach i siblings) children) := by
  induction items generalizing children with
  | nil => rfl
  | cons i is ih => rw [appendEach_cons, append, if_pos rfl, ih, List.foldl_cons]

/-- An empty root is filled with several items. -/
theorem appendEach_element (items : List Item) :
    appendEach k items (element k name attributes []) = element k name attributes (gather items) :=
  appendEach_element_foldl items

end Fill

mutual

/-- A text may be added in parts. -/
theorem append_append_text (cur : Nat) (a b : String) (tree : Item) :
    append cur (text b) (append cur (text a) tree) = append cur (text (a ++ b)) tree := by
  match tree with
  | element id name attributes children =>
      rw [append, append]
      -- In the element itself the second text joins the first, and elsewhere nothing is added.
      by_cases hcur : id = cur
      · rw [if_pos hcur, if_pos hcur, append, if_pos hcur, attach_attach_text]
      · rw [if_neg hcur, if_neg hcur, append, if_neg hcur,
          appendAll_appendAll_text cur a b children]
  | text content => rw [append, append, append]
  | comment content => rw [append, append, append]

theorem appendAll_appendAll_text (cur : Nat) (a b : String) (is : List Item) :
    appendAll cur (text b) (appendAll cur (text a) is) = appendAll cur (text (a ++ b)) is := by
  match is with
  | [] => rw [appendAll, appendAll, appendAll]
  | i :: is =>
      rw [appendAll, appendAll, appendAll, append_append_text cur a b i,
        appendAll_appendAll_text cur a b is]

end

section Changes

variable {p : Nat → Name → List Attribute → Prop}

mutual

/-- An addition keeps a condition that the new item meets. -/
theorem every_append (cur : Nat) {x : Item} (hx : every p x) (tree : Item) (h : every p tree) :
    every p (append cur x tree) := by
  match tree with
  | element id name attributes children =>
      rw [every] at h
      rw [append]
      by_cases hcur : id = cur
      -- This is the element that the item is added to.
      · rw [if_pos hcur, every]
        exact ⟨h.1, everyAll_attach hx h.2⟩
      · rw [if_neg hcur, every]
        exact ⟨h.1, everyAll_appendAll cur hx children h.2⟩
  | text content => rw [append]; exact every_text _ _
  | comment content => rw [append]; exact every_comment _ _

theorem everyAll_appendAll (cur : Nat) {x : Item} (hx : every p x) (is : List Item)
    (h : everyAll p is) : everyAll p (appendAll cur x is) := by
  match is with
  | [] => rw [appendAll, everyAll]; trivial
  | i :: is =>
      rw [everyAll] at h
      rw [appendAll, everyAll]
      exact ⟨every_append cur hx i h.1, everyAll_appendAll cur hx is h.2⟩

end

/-- So do several additions to one element. -/
theorem every_appendEach (cur : Nat) {items : List Item} (hitems : everyAll p items)
    {tree : Item} (h : every p tree) : every p (appendEach cur items tree) := by
  induction items generalizing tree with
  | nil => exact h
  | cons i is ih =>
      rw [everyAll] at hitems
      exact ih hitems.2 (every_append cur hitems.1 tree h)

mutual

/-- What is put in front of an element keeps a condition. -/
theorem every_insertBelow (cur : Nat) {x : Item} (hx : every p x) (tree : Item)
    (h : every p tree) : every p (insertBelow cur x tree) := by
  match tree with
  | element id name attributes children =>
      rw [every] at h
      rw [insertBelow, every]
      exact ⟨h.1, everyAll_insertBefore cur hx [] children (by rw [everyAll]; trivial) h.2⟩
  | text content => rw [insertBelow]; exact every_text _ _
  | comment content => rw [insertBelow]; exact every_comment _ _

theorem everyAll_insertBefore (cur : Nat) {x : Item} (hx : every p x) (passed is : List Item)
    (hpassed : everyAll p passed) (h : everyAll p is) :
    everyAll p (insertBefore cur x passed is) := by
  match is with
  | [] =>
      rw [insertBefore]
      exact everyAll_reverse.2 hpassed
  | i :: is =>
      have hall := h
      rw [everyAll] at h
      rw [insertBefore]
      -- The siblings that were passed are turned round again when the place is found.
      by_cases hcur : i.hasId cur = true
      · rw [if_pos hcur]
        exact everyAll_append.2 ⟨everyAll_attach hx (everyAll_reverse.2 hpassed), hall⟩
      · rw [if_neg hcur]
        refine everyAll_insertBefore cur hx (insertBelow cur x i :: passed) is ?_ h.2
        rw [everyAll]
        exact ⟨every_insertBelow cur hx i h.1, hpassed⟩

end

/-- What is put in its place keeps a condition. -/
theorem every_insert (place : Place) {x : Item} (hx : every p x) {tree : Item}
    (h : every p tree) : every p (tree.insert place x) := by
  cases place with
  | inside id => exact every_append id hx tree h
  | before id => exact every_insertBelow id hx tree h

mutual

/-- An element that is taken out takes no condition with it. -/
theorem every_remove (cur : Nat) (tree : Item) (h : every p tree) : every p (remove cur tree) := by
  match tree with
  | element id name attributes children =>
      rw [every] at h
      rw [remove, every]
      exact ⟨h.1, everyAll_removeAll cur children h.2⟩
  | text content => rw [remove]; exact every_text _ _
  | comment content => rw [remove]; exact every_comment _ _

theorem everyAll_removeAll (cur : Nat) (is : List Item) (h : everyAll p is) :
    everyAll p (removeAll cur is) := by
  match is with
  | [] => rw [removeAll, everyAll]; trivial
  | i :: is =>
      rw [everyAll] at h
      rw [removeAll]
      by_cases hcur : i.hasId cur = true
      · rw [if_pos hcur]
        exact everyAll_removeAll cur is h.2
      · rw [if_neg hcur, everyAll]
        exact ⟨every_remove cur i h.1, everyAll_removeAll cur is h.2⟩

end

mutual

/-- Children may be exchanged for such that keep the condition. -/
theorem every_setChildren (cur : Nat) {new : List Item} (hnew : everyAll p new) (tree : Item)
    (h : every p tree) : every p (setChildren cur new tree) := by
  match tree with
  | element id name attributes children =>
      rw [every] at h
      rw [setChildren]
      by_cases hcur : id = cur
      · rw [if_pos hcur, every]
        exact ⟨h.1, hnew⟩
      · rw [if_neg hcur, every]
        exact ⟨h.1, everyAll_setChildrenAll cur hnew children h.2⟩
  | text content => rw [setChildren]; exact every_text _ _
  | comment content => rw [setChildren]; exact every_comment _ _

theorem everyAll_setChildrenAll (cur : Nat) {new : List Item} (hnew : everyAll p new)
    (is : List Item) (h : everyAll p is) : everyAll p (setChildrenAll cur new is) := by
  match is with
  | [] => rw [setChildrenAll, everyAll]; trivial
  | i :: is =>
      rw [everyAll] at h
      rw [setChildrenAll, everyAll]
      exact ⟨every_setChildren cur hnew i h.1, everyAll_setChildrenAll cur hnew is h.2⟩

end

mutual

/-- What is found in a tree keeps its conditions. -/
theorem every_of_find? {cur : Nat} {i : Item} (tree : Item) (h : every p tree)
    (hfind : find? cur tree = some i) : every p i := by
  match tree with
  | element id name attributes children =>
      have hchildren := h
      rw [every] at hchildren
      rw [find?] at hfind
      by_cases hcur : id = cur
      · rw [if_pos hcur] at hfind
        exact Option.some.inj hfind ▸ h
      · rw [if_neg hcur] at hfind
        exact every_of_findAll? children hchildren.2 hfind
  | text content => simp [find?] at hfind
  | comment content => simp [find?] at hfind

theorem every_of_findAll? {cur : Nat} {i : Item} (is : List Item) (h : everyAll p is)
    (hfind : findAll? cur is = some i) : every p i := by
  match is with
  | [] =>
      rw [findAll?] at hfind
      exact absurd hfind (by simp)
  | j :: js =>
      rw [everyAll] at h
      rw [findAll?] at hfind
      rcases Option.or_eq_some_iff.1 hfind with hfind | ⟨_, hfind⟩
      · exact every_of_find? j h.1 hfind
      · exact every_of_findAll? js h.2 hfind

end

/-- The children of an item keep its conditions. -/
theorem everyAll_children {i : Item} (h : every p i) : everyAll p i.children := by
  cases i with
  | element id name attributes children =>
      rw [every] at h
      exact h.2
  | text content => simp [children, everyAll]
  | comment content => simp [children, everyAll]

end Changes

end Item

end Html

end SoleRoot

import SoleRoot.Proofs.Html.Items

/-!
# How Often a Number Occurs

Changes to a growing tree do not double any part of it.

An item is put behind the children of an element, or before an element, and the place
is found by a number. If two elements had the number, the item would be put into the
tree twice. So what an insertion adds is bounded by how often the number of the place
occurs, and as long as every number occurs once, so does what is inserted.

An element that is moved is first taken out. What is left and what was taken out are
together no more than what was there before; this holds below the root only, since the
root is not taken out.

## Main definitions

* `Item.times`: How often a number occurs in an item.
* `Item.Once`: Every number occurs at most once.

## Theorems

* `Item.times_insert_le`: What an insertion adds.
* `Item.times_remove_add_le`: An element is either in the tree or taken out of it.
* `Item.times_of_le`: Numbers above the bound do not occur.
-/

namespace SoleRoot

namespace Html

namespace Item

mutual

/-- How many elements of an item have a number. -/
def times (k : Nat) : Item → Nat
  | element id _ _ children => (if id = k then 1 else 0) + timesAll k children
  | text _ => 0
  | comment _ => 0

/-- How many elements of a list of items have a number. -/
def timesAll (k : Nat) : List Item → Nat
  | [] => 0
  | i :: is => times k i + timesAll k is

end

/-- Whether no number occurs twice. -/
def Once (i : Item) : Prop :=
  ∀ k, i.times k ≤ 1

variable {k : Nat}

/-- A number occurs in a list as often as in its parts together. -/
theorem timesAll_append (is js : List Item) :
    timesAll k (is ++ js) = timesAll k is + timesAll k js := by
  induction is with
  | nil => rw [List.nil_append, timesAll, Nat.zero_add]
  | cons i is ih => rw [List.cons_append, timesAll, timesAll, ih, Nat.add_assoc]

theorem timesAll_singleton (i : Item) : timesAll k [i] = times k i := by
  rw [timesAll, timesAll, Nat.add_zero]

theorem timesAll_reverse (is : List Item) : timesAll k is.reverse = timesAll k is := by
  induction is with
  | nil => rfl
  | cons i is ih =>
      rw [List.reverse_cons, timesAll_append, ih, timesAll_singleton, timesAll, Nat.add_comm]

/-- Texts have no numbers, so it does not matter whether they are joined. -/
theorem timesAll_attach (x : Item) (siblings : List Item) :
    timesAll k (attach x siblings) = timesAll k siblings + times k x := by
  rcases attach_cases x siblings with happend | ⟨start, old, new, rfl, rfl, hjoined⟩
  · rw [happend, timesAll_append, timesAll_singleton]
  · rw [hjoined, timesAll_append, timesAll_append, timesAll_singleton, timesAll_singleton,
      times, times, times]

/-- Below an item a number does not occur more often than in it. -/
theorem timesAll_children_le (i : Item) : timesAll k i.children ≤ times k i := by
  cases i with
  | element id name attributes children =>
      rw [Item.children, times]
      omega
  | text content => exact Nat.le_refl 0
  | comment content => exact Nat.le_refl 0

/-! ## Insertions -/

mutual

/-- The item is added once for each element of the number. -/
theorem times_append_le (id : Nat) (x tree : Item) :
    times k (append id x tree) ≤ times k tree + times id tree * times k x := by
  match tree with
  | element other name attributes children =>
      rw [append]
      by_cases hid : other = id
      · -- The item is put here and not below.
        rw [if_pos hid, times, times, times, if_pos hid, timesAll_attach, Nat.add_mul]
        omega
      · have hbelow := timesAll_appendAll_le id x children
        rw [if_neg hid, times, times, times, if_neg hid, Nat.zero_add]
        omega
  | text content => simp [append, times]
  | comment content => simp [append, times]

theorem timesAll_appendAll_le (id : Nat) (x : Item) (is : List Item) :
    timesAll k (appendAll id x is) ≤ timesAll k is + timesAll id is * times k x := by
  match is with
  | [] => simp [appendAll, timesAll]
  | i :: is =>
      have hfirst := times_append_le id x i
      have hrest := timesAll_appendAll_le id x is
      rw [appendAll, timesAll, timesAll, timesAll, Nat.add_mul]
      omega

end

/-- An element has its number. -/
theorem times_pos_of_hasId {id : Nat} {i : Item} (h : i.hasId id = true) : 0 < times id i := by
  cases i with
  | element other name attributes children =>
      have hid : other = id := beq_iff_eq.1 h
      rw [times, if_pos hid]
      omega
  | text content => exact Bool.noConfusion h
  | comment content => exact Bool.noConfusion h

mutual

/-- So it is where it is put before an element. -/
theorem times_insertBelow_le (id : Nat) (x tree : Item) :
    times k (insertBelow id x tree) ≤ times k tree + times id tree * times k x := by
  match tree with
  | element other name attributes children =>
      have hbelow := timesAll_insertBefore_le id x [] children
      rw [timesAll] at hbelow
      rw [insertBelow, times, times, times, Nat.add_mul]
      omega
  | text content => simp [insertBelow, times]
  | comment content => simp [insertBelow, times]

theorem timesAll_insertBefore_le (id : Nat) (x : Item) (passed is : List Item) :
    timesAll k (insertBefore id x passed is) ≤
      timesAll k passed + timesAll k is + timesAll id is * times k x := by
  match is with
  | [] =>
      rw [insertBefore, timesAll_reverse, timesAll, timesAll]
      omega
  | i :: is =>
      rw [insertBefore]
      by_cases hid : i.hasId id = true
      -- The item is put here, and the search goes no further.
      · have hhere : times k x ≤ times id i * times k x :=
          Nat.le_mul_of_pos_left _ (times_pos_of_hasId hid)
        rw [if_pos hid, timesAll_append, timesAll_attach, timesAll_reverse, timesAll,
          timesAll, Nat.add_mul]
        omega
      · have hfirst := times_insertBelow_le id x i
        have hrest := timesAll_insertBefore_le id x (insertBelow id x i :: passed) is
        rw [timesAll] at hrest
        rw [if_neg hid, timesAll, timesAll, Nat.add_mul]
        omega

end

/-- Where every number occurs once, an insertion adds an item once. -/
theorem times_insert_le {tree : Item} (h : tree.Once) (place : Place) (x : Item) :
    times k (tree.insert place x) ≤ times k tree + times k x := by
  -- The number of the place occurs once at most.
  have hplace (id : Nat) : times id tree * times k x ≤ times k x := by
    have hmul := Nat.mul_le_mul_right (times k x) (h id)
    rwa [Nat.one_mul] at hmul
  cases place with
  | inside id => exact (times_append_le id x tree).trans (Nat.add_le_add_left (hplace id) _)
  | before id => exact (times_insertBelow_le id x tree).trans (Nat.add_le_add_left (hplace id) _)

/-- The root stays what it is. -/
theorem hasId_insert (id : Nat) (tree : Item) (place : Place) (x : Item) :
    (tree.insert place x).hasId id = tree.hasId id := by
  cases tree with
  | element other name attributes children =>
      cases place with
      | inside target =>
          rw [insert, append]
          split
          · rfl
          · rfl
      | before target => rw [insert, insertBelow, hasId, hasId]
  | text content =>
      cases place with
      | inside target => rw [insert, append]
      | before target => rw [insert, insertBelow]
  | comment content =>
      cases place with
      | inside target => rw [insert, append]
      | before target => rw [insert, insertBelow]

/-! ## Removals -/

/-- What is taken out is not the root. -/
theorem hasId_remove (id target : Nat) (tree : Item) :
    (tree.remove target).hasId id = tree.hasId id := by
  cases tree with
  | element other name attributes children => rw [remove, hasId, hasId]
  | text content => rw [remove]
  | comment content => rw [remove]

mutual

/-- A removal adds nothing. -/
theorem times_remove_le (id : Nat) (tree : Item) : times k (remove id tree) ≤ times k tree := by
  match tree with
  | element other name attributes children =>
      have hbelow := timesAll_removeAll_le id children
      rw [remove, times, times]
      omega
  | text content => rw [remove]
  | comment content => rw [remove]

theorem timesAll_removeAll_le (id : Nat) (is : List Item) :
    timesAll k (removeAll id is) ≤ timesAll k is := by
  match is with
  | [] => rw [removeAll]
  | i :: is =>
      have hfirst := times_remove_le id i
      have hrest := timesAll_removeAll_le id is
      rw [removeAll, timesAll]
      split
      · omega
      · rw [timesAll]
        omega

end

/-- What is found has the number that is looked for. -/
theorem find?_of_hasId {id : Nat} {i : Item} (h : i.hasId id = true) : find? id i = some i := by
  cases i with
  | element other name attributes children =>
      have hid : other = id := beq_iff_eq.1 h
      rw [find?, if_pos hid]
  | text content => exact Bool.noConfusion h
  | comment content => exact Bool.noConfusion h

mutual

/-- Below the root, what is found and what is left make up the tree. -/
theorem times_remove_add_le {id : Nat} {x : Item} (tree : Item) (hroot : tree.hasId id = false)
    (hfind : find? id tree = some x) : times k (remove id tree) + times k x ≤ times k tree := by
  match tree with
  | element other name attributes children =>
      have hid : other ≠ id := beq_eq_false_iff_ne.1 hroot
      rw [find?, if_neg hid] at hfind
      -- The root is not taken out, so what was found is below it.
      have hbelow := timesAll_removeAll_add_le children hfind
      rw [remove, times, times]
      omega
  | text content => simp [find?] at hfind
  | comment content => simp [find?] at hfind

theorem timesAll_removeAll_add_le {id : Nat} {x : Item} (is : List Item)
    (hfind : findAll? id is = some x) :
    timesAll k (removeAll id is) + times k x ≤ timesAll k is := by
  match is with
  | [] => simp [findAll?] at hfind
  | i :: is =>
      have hrest := timesAll_removeAll_le (k := k) id is
      rw [findAll?] at hfind
      rw [removeAll, timesAll]
      cases hid : i.hasId id with
      | true =>
          -- The first item is what was looked for, and it goes as a whole.
          rw [find?_of_hasId hid, Option.some_or] at hfind
          rw [if_pos rfl, ← Option.some.inj hfind]
          omega
      | false =>
          rw [if_neg Bool.false_ne_true, timesAll]
          rcases Option.or_eq_some_iff.1 hfind with hfind | ⟨_, hfind⟩
          -- It stands inside the first item, and nothing else grows.
          · have hfirst := times_remove_add_le i hid hfind
            omega
          · have hfirst := times_remove_le (k := k) id i
            have hbehind := timesAll_removeAll_add_le is hfind
            omega

end

mutual

/-- What is found is an element of its number. -/
theorem eq_element_of_find? {id : Nat} {x : Item} (tree : Item) (h : find? id tree = some x) :
    ∃ name attributes children, x = element id name attributes children := by
  match tree with
  | element other name attributes children =>
      rw [find?] at h
      by_cases hid : other = id
      · rw [if_pos hid] at h
        exact ⟨name, attributes, children, hid ▸ (Option.some.inj h).symm⟩
      · rw [if_neg hid] at h
        exact eq_element_of_findAll? children h
  | text content => simp [find?] at h
  | comment content => simp [find?] at h

theorem eq_element_of_findAll? {id : Nat} {x : Item} (is : List Item)
    (h : findAll? id is = some x) :
    ∃ name attributes children, x = element id name attributes children := by
  match is with
  | [] => simp [findAll?] at h
  | i :: is =>
      rw [findAll?] at h
      rcases Option.or_eq_some_iff.1 h with h | ⟨_, h⟩
      · exact eq_element_of_find? i h
      · exact eq_element_of_findAll? is h

end

mutual

/-- Numbers above the bound do not occur. -/
theorem times_of_le {n : Nat} (hk : n ≤ k) (i : Item) (h : every (Below n) i) :
    times k i = 0 := by
  match i with
  | element id name attributes children =>
      rw [every] at h
      rw [times, if_neg (by omega), timesAll_of_le hk children h.2]
  | text content => rw [times]
  | comment content => rw [times]

theorem timesAll_of_le {n : Nat} (hk : n ≤ k) (is : List Item) (h : everyAll (Below n) is) :
    timesAll k is = 0 := by
  match is with
  | [] => rw [timesAll]
  | i :: is =>
      rw [everyAll] at h
      rw [timesAll, times_of_le hk i h.1, timesAll_of_le hk is h.2]

end

end Item

end Html

end SoleRoot

import SoleRoot.Html.Reader

/-!
# What the Names of Open Elements Say

Most of what a reader of HTML does depends on the names of the open elements alone.

Whether an element is open and not hidden, which item a list item ends, and in what mode
the reader is: none of this looks at the numbers of elements. `unnumbered` gives names
back to the functions that look at open elements, so that a condition on names can ask
what the rules ask.

The mode is that of the innermost table, part of a table or choice, except inside
templates, which have modes of their own. `modeFor` is the mode that names call for if
templates are read by the rules of the body. A name that is not `modal` does not change
it.

## Main definitions

* `unnumbered`: Open elements of given names.
* `modeFor`: The mode that names call for.
* `modal`: The names of HTML that call for a mode.
* `isFlow`, `takesText`: Modes that read by the rules of the body, and modes in which texts
  are put where they stand.

## Theorems

* `has_unnumbered`, `itemToEnd?_unnumbered`, `selectMode_unnumbered`: The numbers do not
  count.
* `modeOf_cons_eq_modeFor`: The mode inside one element more.
* `modeFor_cons_of_not_modal`: Most elements do not change the mode.
-/

namespace SoleRoot

namespace Html

open Builder

/-- Open elements without their numbers. -/
def unnumbered (names : List Name) : List Opened :=
  names.map (⟨0, ·⟩)

/-- The name of the innermost of the open elements. -/
def innermost (names : List Name) : Name :=
  names.head?.getD rootElement.name

/-- The mode that open elements call for, in templates that of the body. -/
def modeFor (names : List Name) : InsertionMode :=
  modeOf [] (unnumbered names)

/-- The names of elements that call for a mode. -/
def modal : List String :=
  ["select", "td", "th", "tr", "tbody", "thead", "tfoot", "caption", "colgroup", "table",
    "template"]

/-- Whether most of what is read in a mode is read by the rules of the body. -/
def isFlow : InsertionMode → Bool
  | .inBody => true
  | .inCaption => true
  | .inCell => true
  | _ => false

/-- Whether texts are put where they stand in a mode. -/
def takesText : InsertionMode → Bool
  | .inSelect => true
  | .inSelectInTable => true
  | .inTemplate => true
  | m => isFlow m

/-! ## Questions about open elements -/

/-- Whether an element is in scope does not depend on the numbers. -/
theorem has_unnumbered (s : Scope) (p : Name → Bool) (os : List Opened) :
    s.has (p ·.name) (unnumbered (os.map (·.name))) = s.has (p ·.name) os := by
  induction os with
  | nil => rfl
  | cons o os ih =>
      simp only [unnumbered, List.map_cons, List.map_map, Scope.has] at ih ⊢
      rw [ih]

/-- Nor does the item that a new item ends. -/
theorem itemToEnd?_unnumbered (names : List String) (os : List Opened) :
    itemToEnd? names (unnumbered (os.map (·.name))) = itemToEnd? names os := by
  induction os with
  | nil => rfl
  | cons o os ih =>
      simp only [unnumbered, List.map_cons, List.map_map, itemToEnd?] at ih ⊢
      rw [ih]

/-- Nor does the mode of a choice. -/
theorem selectMode_unnumbered (os : List Opened) :
    selectMode (unnumbered (os.map (·.name))) = selectMode os := by
  induction os with
  | nil => rfl
  | cons o os ih =>
      simp only [unnumbered, List.map_cons, List.map_map, selectMode] at ih ⊢
      rw [ih]

/-! ## Modes -/

section Modes

variable {names : List Name} {name : Name}

/-- The innermost element calls for a mode, or else those around it do. -/
theorem modeOf_cons (modes : List InsertionMode) (o : Opened) {os : List Opened} (hos : os ≠ []) :
    modeOf modes (o :: os) =
      if o.name.isIn ["select"] then selectMode os
      else if o.name.isIn ["td", "th"] then .inCell
      else if o.name.isIn ["tr"] then .inRow
      else if o.name.isIn ["tbody", "thead", "tfoot"] then .inTableBody
      else if o.name.isIn ["caption"] then .inCaption
      else if o.name.isIn ["colgroup"] then .inColumnGroup
      else if o.name.isIn ["table"] then .inTable
      else if o.name.isIn ["template"] then modes.head?.getD .inBody
      else modeOf modes os := by
  cases os with
  | nil => exact absurd rfl hos
  | cons o' os =>
      rw [modeOf]
      exact hos

/-- Only a template asks what modes the open templates have. -/
theorem modeOf_cons_eq_modeFor {modes : List InsertionMode} {os : List Opened} (hos : os ≠ [])
    (htemplate : name.isIn ["template"] = false)
    (h : modeOf modes os = modeFor (os.map (·.name))) (id : Nat) :
    modeOf modes (⟨id, name⟩ :: os) = modeFor (name :: os.map (·.name)) := by
  have hnames : unnumbered (os.map (·.name)) ≠ [] := by simpa [unnumbered] using hos
  have hcons : unnumbered (name :: os.map (·.name)) =
      ⟨0, name⟩ :: unnumbered (os.map (·.name)) := rfl
  -- The two lists of modes are asked only by the case of templates, which is excluded.
  rw [modeFor, hcons, modeOf_cons _ _ hos, modeOf_cons _ _ hnames, selectMode_unnumbered,
    htemplate, h]
  rfl

/-- The innermost name calls for a mode, or else those around it do. -/
theorem modeFor_cons (hnames : names ≠ []) (n : Name) :
    modeFor (n :: names) =
      if n.isIn ["select"] then selectMode (unnumbered names)
      else if n.isIn ["td", "th"] then .inCell
      else if n.isIn ["tr"] then .inRow
      else if n.isIn ["tbody", "thead", "tfoot"] then .inTableBody
      else if n.isIn ["caption"] then .inCaption
      else if n.isIn ["colgroup"] then .inColumnGroup
      else if n.isIn ["table"] then .inTable
      else if n.isIn ["template"] then .inBody
      else modeFor names :=
  modeOf_cons [] ⟨0, n⟩ (by simpa [unnumbered] using hnames)

/-- A name that calls for no mode leaves that of the elements around. -/
theorem modeFor_cons_of_not_modal (hnames : names ≠ []) (h : name.isIn modal = false) :
    modeFor (name :: names) = modeFor names := by
  -- Each question of `modeFor` is about some of the modal names.
  have hnone (some : List String) (hsub : some ⊆ modal) : name.isIn some = false := by
    rw [Name.isIn, Bool.and_eq_false_iff, List.contains_eq_mem, decide_eq_false_iff_not] at h ⊢
    exact h.imp_right fun hmem hin => hmem (hsub hin)
  rw [modeFor_cons hnames, hnone _ (by decide), hnone _ (by decide), hnone _ (by decide),
    hnone _ (by decide), hnone _ (by decide), hnone _ (by decide), hnone _ (by decide),
    hnone _ (by decide)]
  rfl

/-- A choice has one of two modes. -/
theorem selectMode_cases (os : List Opened) :
    selectMode os = .inSelect ∨ selectMode os = .inSelectInTable := by
  induction os with
  | nil => exact .inl rfl
  | cons o os ih =>
      rw [selectMode]
      split
      · exact .inl rfl
      split
      · exact .inr rfl
      · exact ih

/-- Names do not call for the mode of a text. -/
theorem modeFor_ne (names : List Name) :
    modeFor names ≠ .inText ∧ modeFor names ≠ .inTableText := by
  rw [modeFor]
  induction unnumbered names with
  | nil => exact ⟨InsertionMode.noConfusion, InsertionMode.noConfusion⟩
  | cons o os ih =>
      by_cases hos : os = []
      -- The root of the tree calls for the body.
      · rw [hos, modeOf]
        exact ⟨InsertionMode.noConfusion, InsertionMode.noConfusion⟩
      · rw [modeOf_cons _ _ hos]
        split
        · rcases selectMode_cases os with hmode | hmode
          · rw [hmode]
            exact ⟨InsertionMode.noConfusion, InsertionMode.noConfusion⟩
          · rw [hmode]
            exact ⟨InsertionMode.noConfusion, InsertionMode.noConfusion⟩
        repeat' split
        all_goals
          first
          | exact ih
          | exact ⟨InsertionMode.noConfusion, InsertionMode.noConfusion⟩

end Modes

end Html

end SoleRoot

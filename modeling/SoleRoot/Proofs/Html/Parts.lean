import SoleRoot.Proofs.Html.Admission

/-!
# Parts of Tables and Choices

Start tags that open a part of a table or a choice in the innermost element, and do
nothing else.

A table has rules of its own, and so has each of its parts except cells and captions.
A part that stands where it belongs is only opened: a group of rows inside a table, a
row inside a group, a cell inside a row. `admitsPart` asks for just this. Where a part
has been left out, its start tag would be supplied, and the tree would not be the one
that was written. A choice is alike: options stand inside it or in a group, and groups
inside it.

The end tag of such an element closes it and sets the mode back. Cells and captions put a
mark on the list of formatting elements, and take the list back to it.

## Main definitions

* `admitsPart`: Whether a start tag opens a part and does nothing else.

## Theorems

* `Ready.startPart`: The start tag of an admitted part opens it.
* `Ready.endPart`: Its end tag closes it, and that of a table or a choice, too.
-/

namespace SoleRoot

namespace Html

open Builder

/-- Whether a start tag inside a choice opens an element and does nothing else. -/
def admitsOption (names : List Name) (name : String) : Bool :=
  name == "option" && (innermost names).isIn ["select", "optgroup"] ||
    name == "optgroup" && (innermost names).isHtml "select"

/-- Whether a start tag opens a part of a table or a choice and does nothing else. -/
def admitsPart (names : List Name) (name : String) : Bool :=
  match modeFor names with
  | .inTable =>
    (innermost names).isHtml "table" && ("caption" :: "colgroup" :: rowGroups).contains name
  | .inTableBody => (innermost names).isIn rowGroups && name == "tr"
  | .inRow => (innermost names).isHtml "tr" && cells.contains name
  | .inSelect => admitsOption names name
  | .inSelectInTable => admitsOption names name
  | _ => false

/-- The names of parts. -/
def parts : List String :=
  ["caption", "colgroup", "tr", "option", "optgroup"] ++ rowGroups ++ cells

theorem mem_parts_of_admitsPart {names : List Name} {name : String}
    (h : admitsPart names name = true) : name ∈ parts := by
  have hgroup : ∀ n ∈ "caption" :: "colgroup" :: rowGroups, n ∈ parts := by decide
  have hcell : ∀ n ∈ cells, n ∈ parts := by decide
  unfold admitsPart admitsOption at h
  split at h
  case h_1 =>
    rw [Bool.and_eq_true, List.contains_iff_mem] at h
    exact hgroup _ h.2
  case h_3 =>
    rw [Bool.and_eq_true, List.contains_iff_mem] at h
    exact hcell _ h.2
  case h_6 => exact absurd h Bool.false_ne_true
  all_goals
    simp only [Bool.and_eq_true, Bool.or_eq_true, beq_iff_eq] at h
  case h_2 => rw [h.2]; decide
  all_goals
    rcases h with h | h
    · rw [h.1]; decide
    · rw [h.1]; decide

/-- Parts stand inside elements of HTML. -/
theorem space_of_admitsPart {names : List Name} {name : String}
    (h : admitsPart names name = true) : (innermost names).space = .html := by
  unfold admitsPart admitsOption at h
  split at h
  case h_6 => exact absurd h Bool.false_ne_true
  -- Each condition on the innermost element is one on its name in HTML.
  all_goals
    simp only [Name.isIn, Name.isHtml, Bool.and_eq_true, Bool.or_eq_true, beq_iff_eq] at h
  case h_1 | h_2 | h_3 => exact h.1.1
  all_goals exact h.elim (·.2.1) (·.2.1)

theorem isIn_of_isHtml {n : Name} {name : String} {names : List String} (h : n.isHtml name = true)
    (hmem : name ∈ names) : n.isIn names = true := by
  simp only [Name.isHtml, Bool.and_eq_true, beq_iff_eq] at h
  rw [Name.isIn, h.1, h.2, Bool.and_eq_true]
  exact ⟨rfl, List.contains_iff_mem.2 hmem⟩

section Entering

variable {names : List Name} {b : Builder} {tag : TagToken} {context : List String}

/-- Nothing is closed down to the innermost element. -/
theorem Still.closeTo (h : Still names b) (hcontext : (innermost names).isIn context = true) :
    b.closeTo context = b := by
  rw [h.innermost_names] at hcontext
  cases hstack : b.stack with
  | nil => exact absurd hstack h.nonempty
  | cons o os =>
      rw [current_of_stack hstack] at hcontext
      -- The innermost element is the context, so the search stops at once.
      have hdrop : b.stack.dropWhile (!·.name.isIn context) = b.stack := by
        rw [hstack, List.dropWhile_cons_of_neg (by rw [hcontext]; decide)]
      rw [Builder.closeTo, hdrop]

/-- A mark on the list of formatting elements changes nothing else. -/
theorem Ready.markFormatting (h : Ready names b) : Ready names b.markFormatting :=
  { h with formatting := List.forall_mem_cons.2 ⟨.inl rfl, h.formatting⟩ }

/-- A part is opened if it is put in its place and its mode is set. -/
theorem Ready.openPart (h : Ready names b) {mode : InsertionMode}
    (hmode : modeFor (.html tag.name :: names) = mode)
    (hplain : tag.name ∉ ["form", "template"] ++ skipping) :
    { b.openElement tag with mode } = b.opened tag b.formatting := by
  simp only [List.mem_append, List.mem_cons, List.not_mem_nil, or_false, not_or] at hplain
  rw [← h.openElement hplain.1.2 hplain.2, hmode, if_neg hplain.1.1, h.toStill.openElement]

/-- Inside a table captions, groups of columns and groups of rows are only opened. -/
theorem Ready.startInTable (h : Ready names b) (hinner : (innermost names).isHtml "table" = true)
    (hmem : tag.name ∈ "caption" :: "colgroup" :: rowGroups) :
    ∃ f, f.Sublist (b.remembering (.html tag.name) tag) ∧
      b.startInTable tag = .done (b.opened tag f) := by
  have hall : ∀ n ∈ "caption" :: "colgroup" :: rowGroups, n ∉ ["form", "template"] ++ skipping := by
    decide
  have hplain := hall _ hmem
  have hclose : b.closeTo tableContext = b := h.closeTo (isIn_of_isHtml hinner (by decide))
  have hsub := formatting_sublist_remembering b (.html tag.name) tag
  have hmode := modeFor_cons h.names_ne_nil (.html tag.name)
  rcases tag with ⟨name, attributes, selfClosing⟩
  simp only [rowGroups, List.mem_cons, List.not_mem_nil, or_false] at hmem
  rcases hmem with rfl | rfl | rfl | rfl | rfl
  -- A caption marks the list; the groups leave it as it is.
  · refine ⟨.mark :: b.formatting, List.Sublist.refl _, ?_⟩
    simp only [Builder.startInTable, hclose]
    exact congrArg Outcome.done (h.markFormatting.openPart hmode hplain)
  all_goals
    refine ⟨_, hsub, ?_⟩
    simp only [Builder.startInTable, hclose]
    exact congrArg Outcome.done (h.openPart hmode hplain)

/-- Inside a group of rows a row is only opened. -/
theorem Ready.startRow (h : Ready names b) (hinner : (innermost names).isIn rowGroups = true)
    (hname : tag.name = "tr") :
    b.inTableBody (.startTag tag) = .done (b.opened tag b.formatting) := by
  have hcontext : (innermost names).isIn bodyContext = true := by
    have hsub : ∀ n ∈ rowGroups, n ∈ bodyContext := by decide
    rw [Name.isIn, Bool.and_eq_true, List.contains_iff_mem] at hinner ⊢
    exact ⟨hinner.1, hsub _ hinner.2⟩
  have hplain : tag.name ∉ ["form", "template"] ++ skipping := by
    rw [hname]
    decide
  have hmode : modeFor (.html tag.name :: names) = .inRow := by
    rw [hname]
    exact modeFor_cons h.names_ne_nil _
  rw [← h.openPart hmode hplain]
  simp only [Builder.inTableBody, hname, if_true, h.closeTo hcontext]

/-- Inside a row a cell is only opened. -/
theorem Ready.startCell (h : Ready names b) (hinner : (innermost names).isHtml "tr" = true)
    (hmem : tag.name ∈ cells) :
    ∃ f, f.Sublist (b.remembering (.html tag.name) tag) ∧
      b.inRow (.startTag tag) = .done (b.opened tag f) := by
  have hall : ∀ n ∈ cells, n ∉ ["form", "template"] ++ skipping ∧
      isFormatting (.html n) = false ∧ (Name.html n).isIn marking = true := by decide
  rcases hall _ hmem with ⟨hplain, hformatting, hmarking⟩
  have hclose : b.closeTo rowContext = b := h.closeTo (isIn_of_isHtml hinner (by decide))
  -- Both kinds of cells call for the same mode.
  have hmode : modeFor (.html tag.name :: names) = .inCell := by
    rw [modeFor_cons h.names_ne_nil]
    simp only [cells, List.mem_cons, List.not_mem_nil, or_false] at hmem
    rcases hmem with hname | hname
    · rw [hname]
      rfl
    · rw [hname]
      rfl
  refine ⟨.mark :: b.formatting, ?_, ?_⟩
  · rw [Builder.remembering, hformatting, if_neg Bool.false_ne_true, if_pos hmarking]
  · have hopened := h.markFormatting.openPart hmode hplain
    simp only [Builder.inRow, List.contains_iff_mem.2 hmem, if_true, hclose]
    exact congrArg Outcome.done hopened

/-- Inside a choice options and groups of options are only opened. -/
theorem Ready.startOption (h : Ready names b) (hadmits : admitsOption names tag.name = true) :
    b.startInSelect tag = .done (b.opened tag b.formatting) := by
  have hcurrent := h.innermost_names
  simp only [admitsOption, Bool.or_eq_true, Bool.and_eq_true, beq_iff_eq] at hadmits
  have hopen (hmem : tag.name ∈ ["option", "optgroup"]) :
      b.openElement tag = b.opened tag b.formatting := by
    have hall : ∀ n ∈ ["option", "optgroup"], n ∉ modal ∧ n ≠ "form" ∧ n ∉ skipping := by decide
    rcases hall _ hmem with ⟨hmodal, hform, hskips⟩
    exact h.openElement_plain hmodal hform hskips
  -- The innermost element is neither an option nor, for a group, a group.
  have hother {context : List String} {name : String} (hin : (innermost names).isIn context = true)
      (hnot : name ∉ context) : b.currentIs name = false := by
    rw [Builder.currentIs, ← hcurrent, Name.isHtml, Bool.and_eq_false_iff]
    rw [Name.isIn, Bool.and_eq_true, List.contains_iff_mem] at hin
    exact .inr <| beq_eq_false_iff_ne.2 fun heq => hnot (by rw [← heq]; exact hin.2)
  rcases hadmits with ⟨hname, hinner⟩ | ⟨hname, hinner⟩
  · have hoption : b.endOption = b := by
      rw [Builder.endOption, hother hinner (by decide), if_neg Bool.false_ne_true]
    rw [← hopen (by rw [hname]; decide)]
    simp only [Builder.startInSelect, hname, hoption]
  · have hselect : (innermost names).isIn ["select"] = true := isIn_of_isHtml hinner (by decide)
    have hoption : b.endOption = b := by
      rw [Builder.endOption, hother hselect (by decide), if_neg Bool.false_ne_true]
    have hgroup : b.endGroup = b := by
      rw [Builder.endGroup, hother hselect (by decide), if_neg Bool.false_ne_true]
    rw [← hopen (by rw [hname]; decide)]
    simp only [Builder.startInSelect, hname, hoption, hgroup]

/-- A part is only opened by its start tag. -/
theorem Ready.startPart (h : Ready names b) (hadmits : admitsPart names tag.name = true) :
    ∃ f, f.Sublist (b.remembering (.html tag.name) tag) ∧
      b.look (.startTag tag) = .done (b.opened tag f) := by
  have hsub := formatting_sublist_remembering b (.html tag.name) tag
  have hhtml : b.isForeign (.startTag tag) = false := by
    simp only [Builder.isForeign, ← h.innermost_names, space_of_admitsPart hadmits, if_true]
  rw [look_html hhtml, Builder.inMode, h.mode]
  rw [admitsPart] at hadmits
  cases hmode : modeFor names with
  | inTable =>
      simp only [hmode, Bool.and_eq_true, List.contains_iff_mem] at hadmits
      exact h.startInTable hadmits.1 hadmits.2
  | inTableBody =>
      simp only [hmode, Bool.and_eq_true, beq_iff_eq] at hadmits
      exact ⟨_, hsub, h.startRow hadmits.1 hadmits.2⟩
  | inRow =>
      simp only [hmode, Bool.and_eq_true, List.contains_iff_mem] at hadmits
      exact h.startCell hadmits.1 hadmits.2
  | inSelect =>
      simp only [hmode] at hadmits
      exact ⟨_, hsub, h.startOption hadmits⟩
  -- In a table a choice is ended by some parts, but not by options.
  | inSelectInTable =>
      simp only [hmode] at hadmits
      have hname : tag.name ∈ ["option", "optgroup"] := by
        simp only [admitsOption, Bool.or_eq_true, Bool.and_eq_true, beq_iff_eq] at hadmits
        simpa using hadmits.imp And.left And.left
      have hall : ∀ n ∈ ["option", "optgroup"], selectEnders.contains n = false := by decide
      refine ⟨_, hsub, ?_⟩
      simp only [Builder.inSelectInTable, hall _ hname, Bool.false_eq_true, if_false]
      exact h.startOption hadmits
  | _ =>
      simp only [hmode] at hadmits
      exact absurd hadmits Bool.false_ne_true

end Entering

section Leaving

variable {names : List Name} {b c : Builder} {name : String} {o : Opened} {os : List Opened}
  {tag : TagToken}

/-- Outside an element the mode is what it was. -/
theorem Ready.resetMode (hb : Ready names b) (htemplates : c.templateModes = b.templateModes) :
    ({ c with stack := b.stack } : Builder).resetMode =
      { c with stack := b.stack, mode := b.mode } := by
  rw [Builder.resetMode]
  simp only [htemplates, hb.reset, hb.mode]

/-- The end tag of a table finds the mode again that was around it. -/
theorem endTable_of_stack (hb : Ready names b) (hmode : c.mode = .inTable)
    (hstack : c.stack = o :: b.stack) (ho : o.name = .html "table")
    (htemplates : c.templateModes = b.templateModes) :
    c.inMode (.endTag "table") = .done { c with stack := b.stack, mode := b.mode } := by
  rw [Builder.inMode, hmode]
  simp only [Builder.inTable, Builder.endInTable, if_true, hasInScope_of_stack hstack ho,
    closeNamed_of_stack hstack ho, hb.resetMode htemplates]

/-- So does that of a choice. -/
theorem endSelect_of_stack (hb : Ready names b)
    (hmode : c.mode = .inSelect ∨ c.mode = .inSelectInTable)
    (hstack : c.stack = o :: b.stack) (ho : o.name = .html "select")
    (htemplates : c.templateModes = b.templateModes) :
    c.inMode (.endTag "select") = .done { c with stack := b.stack, mode := b.mode } := by
  have hend : c.endInSelect "select" = { c with stack := b.stack, mode := b.mode } := by
    simp only [Builder.endInSelect, hasInScope_of_stack hstack ho, if_true, Builder.endSelect,
      closeNamed_of_stack hstack ho, hb.resetMode htemplates]
  rw [← hend, Builder.inMode]
  rcases hmode with hmode | hmode
  · rw [hmode]
    rfl
  · rw [hmode]
    rfl

/-- An option or a group of options is closed, and the mode stays. -/
theorem endOption_of_stack (hmem : name ∈ ["option", "optgroup"])
    (hmode : c.mode = .inSelect ∨ c.mode = .inSelectInTable) (hstack : c.stack = o :: os)
    (ho : o.name = .html name) : c.inMode (.endTag name) = .done { c with stack := os } := by
  have hcurrent : c.currentIs name = true := by
    rw [Builder.currentIs, current_of_stack hstack, ho]
    simp [Name.isHtml, Name.html]
  have hpop : c.pop = { c with stack := os } := by
    rw [Builder.pop, hstack]
    rfl
  have hend : c.endInSelect name = { c with stack := os } := by
    simp only [List.mem_cons, List.not_mem_nil, or_false] at hmem
    rcases hmem with rfl | rfl
    · rw [Builder.endInSelect, Builder.endOption, hcurrent, if_pos rfl, hpop]
    · -- What is innermost is the group, so no option is closed before it.
      have hgroup : c.endGroup = { c with stack := os } := by
        rw [Builder.endGroup, hcurrent, if_pos rfl, hpop]
      rw [Builder.endInSelect, hstack]
      cases os with
      | nil => exact hgroup
      | cons o' os =>
          have hoption : o.name.isHtml "option" = false := by
            rw [ho]
            decide
          simp only [hoption, Bool.false_and, Bool.false_eq_true, if_false]
          exact hgroup
  rw [← hend, Builder.inMode]
  simp only [List.mem_cons, List.not_mem_nil, or_false] at hmem
  rcases hmode with hmode | hmode
  · rw [hmode]
    rfl
  · rw [hmode]
    rcases hmem with rfl | rfl
    · rfl
    · rfl

/-- Captions take the list of formatting elements back to their mark. -/
theorem endCaption_of_stack (hmode : c.mode = .inCaption) (hstack : c.stack = o :: os)
    (ho : o.name = .html "caption") :
    c.inMode (.endTag "caption") = .done { c with
      stack := os, mode := .inTable
      formatting := (c.formatting.dropWhile Entry.isElement).drop 1 } := by
  rw [Builder.inMode, hmode]
  simp only [Builder.inCaption, if_true, hasInScope_of_stack hstack ho, Builder.endCaption,
    close_of_stack hstack ho (by decide : "caption" ∉ Name.impliedEnds)]
  rfl

/-- So do cells. -/
theorem endCell_of_stack (hmem : name ∈ cells) (hmode : c.mode = .inCell)
    (hstack : c.stack = o :: os) (ho : o.name = .html name) :
    c.inMode (.endTag name) = .done { c with
      stack := os, mode := .inRow
      formatting := (c.formatting.dropWhile Entry.isElement).drop 1 } := by
  have hall : ∀ n ∈ cells, n ∉ Name.impliedEnds := by decide
  rw [Builder.inMode, hmode]
  simp only [Builder.inCell, List.contains_iff_mem.2 hmem, if_true,
    hasInScope_of_stack hstack ho, close_of_stack hstack ho (hall _ hmem)]
  rfl

/-- Where the innermost element is the context of a part, that part is closed alone. -/
theorem closeTo_pop_of_stack {context : List String} (hmem : name ∈ context)
    (hstack : c.stack = o :: os) (ho : o.name = .html name) :
    (c.closeTo context).pop = { c with stack := os } := by
  have hname : o.name.isIn context = true := by
    rw [ho]
    simpa [Name.isIn, Name.html] using hmem
  rw [Builder.closeTo, hstack, List.dropWhile_cons_of_neg (by rw [hname]; decide)]
  rfl

/-- A group of columns is closed, and the table goes on. -/
theorem endColumnGroup_of_stack (hmode : c.mode = .inColumnGroup) (hstack : c.stack = o :: os)
    (ho : o.name = .html "colgroup") :
    c.inMode (.endTag "colgroup") = .done { c with stack := os, mode := .inTable } := by
  have hcurrent : c.currentIs "colgroup" = true := by
    rw [Builder.currentIs, current_of_stack hstack, ho]
    rfl
  rw [Builder.inMode, hmode]
  simp only [Builder.inColumnGroup, if_true, hcurrent, Builder.pop, hstack, List.drop_succ_cons,
    List.drop_zero]

/-- So is a group of rows. -/
theorem endRowGroup_of_stack (hmem : name ∈ rowGroups) (hmode : c.mode = .inTableBody)
    (hstack : c.stack = o :: os) (ho : o.name = .html name) :
    c.inMode (.endTag name) = .done { c with stack := os, mode := .inTable } := by
  have hall : ∀ n ∈ rowGroups, n ∈ bodyContext := by decide
  rw [Builder.inMode, hmode]
  simp only [Builder.inTableBody, List.contains_iff_mem.2 hmem, if_true,
    hasInScope_of_stack hstack ho, Builder.endRowGroup,
    closeTo_pop_of_stack (hall _ hmem) hstack ho]

/-- A row is closed, and the group goes on. -/
theorem endRow_of_stack (hmode : c.mode = .inRow) (hstack : c.stack = o :: os)
    (ho : o.name = .html "tr") :
    c.inMode (.endTag "tr") = .done { c with stack := os, mode := .inTableBody } := by
  rw [Builder.inMode, hmode]
  simp only [Builder.inRow, if_true, hasInScope_of_stack hstack ho, Builder.endRow,
    closeTo_pop_of_stack (by decide : "tr" ∈ rowContext) hstack ho]

/-- What is left of the list of formatting elements behind a part: all of it, or what was there
    before a mark. -/
def Builder.unmarked (c : Builder) (name : String) : List Entry :=
  if (Name.html name).isIn marking then (c.formatting.dropWhile Entry.isElement).drop 1
  else c.formatting

/-- Behind a part no formatting element is on the list that was not there before it. -/
theorem unmarked_sublist (hlist : c.formatting.Sublist (b.remembering (.html name) tag))
    (hformatting : isFormatting (.html name) = false) :
    (c.unmarked name).Sublist b.formatting := by
  rw [Builder.remembering, hformatting, if_neg Bool.false_ne_true] at hlist
  unfold Builder.unmarked
  split at hlist
  · rename_i hmarking
    rw [if_pos hmarking]
    exact clear_sublist hlist
  · rename_i hmarking
    rwa [if_neg hmarking]

/-- The end tag of a part closes it. -/
theorem Ready.endPart (hb : Ready names b) (hadmits : admitsPart names name = true)
    (h : Ready (.html name :: names) c) (hstack : c.stack = o :: b.stack)
    (ho : o.name = .html name) :
    c.inMode (.endTag name) =
      .done { c with stack := b.stack, mode := b.mode, formatting := c.unmarked name } := by
  have hmode := h.mode
  rw [modeFor_cons hb.names_ne_nil] at hmode
  rw [hb.mode]
  -- Each mode admits some parts, and each part goes back to the mode that admits it.
  unfold admitsPart admitsOption at hadmits
  split at hadmits
  case h_1 hnames =>
    simp only [rowGroups, Bool.and_eq_true, List.contains_iff_mem, List.mem_cons,
      List.not_mem_nil, or_false] at hadmits
    rw [hnames]
    rcases hadmits.2 with rfl | rfl | rfl | rfl | rfl
    · exact endCaption_of_stack hmode hstack ho
    · exact endColumnGroup_of_stack hmode hstack ho
    all_goals exact endRowGroup_of_stack (by decide) hmode hstack ho
  case h_2 hnames =>
    simp only [Bool.and_eq_true, beq_iff_eq] at hadmits
    rcases hadmits.2 with rfl
    rw [hnames]
    exact endRow_of_stack hmode hstack ho
  case h_3 hnames =>
    simp only [cells, Bool.and_eq_true, List.contains_iff_mem, List.mem_cons,
      List.not_mem_nil, or_false] at hadmits
    rw [hnames]
    rcases hadmits.2 with rfl | rfl
    · exact endCell_of_stack (by decide) hmode hstack ho
    · exact endCell_of_stack (by decide) hmode hstack ho
  case h_4 hnames | h_5 hnames =>
    -- Options do not change the mode.
    simp only [Bool.or_eq_true, Bool.and_eq_true, beq_iff_eq] at hadmits
    rcases hadmits with ⟨rfl, _⟩ | ⟨rfl, _⟩
    all_goals
      have hsame : c.mode = modeFor names := hmode
      rw [← hsame]
      exact endOption_of_stack (by decide) (by simp [hsame, hnames]) hstack ho
  case h_6 => exact absurd hadmits Bool.false_ne_true

end Leaving

end Html

end SoleRoot

import SoleRoot.Proofs.Html.Ready

/-!
# Which Elements Stay Where They Are Written

Start tags that open an element in the innermost one, and do nothing else.

What a start tag does in a body depends on its name and on what is open. A block
ends an open paragraph, a heading ends a heading, a list item the item before it,
a link the link around it, and an option the option before it. `admitsInBody` says that
there is nothing to end, from the names of the open elements alone. Names that never
open an element by the rules of the body alone are not admitted at all.

An admitted element is closed by its end tag, since it is innermost when the end
tag comes. A formatting element is on the list of elements to be opened again, and
is the latest there, unless it was dropped because three more like it were opened
inside; in either case its end tag closes it and takes it from the list. An element
that put a mark on the list takes everything back to the mark.

Tables and choices are opened here, too, but what is inside them and their end tags are read
by other rules.

## Main definitions

* `admitsInBody`: Whether a start tag opens an element and does nothing else.
* `skipping`: The names of elements at whose start a line feed is left out.
* `Builder.opened`: The state inside an element that was opened.

## Theorems

* `Ready.startInBody`: The start tag of an admitted element opens it.
* `Ready.endInBody`: Its end tag closes it.
-/

namespace SoleRoot

namespace Html

open Builder

/-- The names of start tags that are sorted out before the others are looked at. -/
def sorted : List String :=
  blocks ++ phrases ++ misplaced ++ metadata ++ Name.headings ++ enclosures ++ emptyInLine ++
    emptyPlain

/-- The names whose start tags never open an element of HTML by the rules of the body alone. -/
def unopened : List String :=
  misplaced ++ metadata ++ emptyInLine ++ emptyPlain ++
    ["textarea", "xmp", "plaintext", "iframe", "noembed", "noscript", "hr", "image", "math", "svg"]

/-- The names of elements at whose start a line feed is left out. -/
def skipping : List String :=
  ["pre", "listing"]

/-- The names of elements that end a paragraph. -/
def paragraphEnders : List String :=
  blocks ++ Name.headings ++ skipping ++ ["form", "li", "dd", "dt", "table"]

/-- Whether a paragraph is open that a block would end. -/
def inParagraph (names : List Name) : Bool :=
  Scope.button.has (·.name.isHtml "p") (unnumbered names)

/-- Whether an element is open that annotations belong to. -/
def inRuby (names : List Name) : Bool :=
  Scope.general.has (·.name.isHtml "ruby") (unnumbered names)

/-- Whether a start tag with rules of its own ends nothing but perhaps a paragraph. -/
def endsNoOther (names : List Name) (name : String) : Bool :=
  match name with
  | "li" => (itemToEnd? ["li"] (unnumbered names)).isNone
  | "dd" | "dt" => (itemToEnd? ["dd", "dt"] (unnumbered names)).isNone
  | "button" => !Scope.general.has (·.name.isHtml "button") (unnumbered names)
  | "a" => !names.any (·.isHtml "a")
  | "nobr" => !Scope.general.has (·.name.isHtml "nobr") (unnumbered names)
  | "form" => !names.any (·.isIn ["form", "template"])
  | "optgroup" | "option" => !(innermost names).isHtml "option"
  | "rb" | "rtc" => !inRuby names || !(innermost names).isIn Name.impliedEnds
  | "rp" | "rt" => !inRuby names || !(innermost names).isIn (Name.impliedEnds.filter (· != "rtc"))
  | "select" =>
    selectMode (unnumbered names) ==
      if modeFor names = .inBody then InsertionMode.inSelect else .inSelectInTable
  | _ => true

/-- Whether a start tag in a body ends nothing but perhaps a paragraph. -/
def endsNothing (names : List Name) (name : String) : Bool :=
  if Name.headings.contains name then !(innermost names).isIn Name.headings
  else endsNoOther names name

/-- Whether a start tag in a body opens an element and does nothing else. -/
def admitsInBody (names : List Name) (name : String) : Bool :=
  !unopened.contains name && (!paragraphEnders.contains name || !inParagraph names) &&
    endsNothing names name

section Innermost

variable {b : Builder} {o : Opened} {os : List Opened}

theorem current_of_stack (h : b.stack = o :: os) : b.current = o := by
  rw [Builder.current, h]
  rfl

/-- The innermost element is in every scope. -/
theorem has_innermost (s : Scope) {p : Opened → Bool} (hp : p o = true) (os : List Opened) :
    s.has p (o :: os) = true := by
  rw [Scope.has, hp, Bool.true_or]

/-- An element whose end tag may not be left out stays open. -/
theorem impliedEnds_of_stack (h : b.stack = o :: os) {names : List String}
    (ho : o.name.isIn names = false) : b.impliedEnds names = b := by
  have hdrop : b.stack.dropWhile (·.name.isIn names) = b.stack := by
    rw [h, List.dropWhile_cons_of_neg (by rw [ho]; exact Bool.false_ne_true)]
  rw [Builder.impliedEnds, hdrop]

/-- The innermost element is the one that is closed. -/
theorem closeThrough_of_stack (h : b.stack = o :: os) {p : Name → Bool} (ho : p o.name = true) :
    b.closeThrough p = { b with stack := os } := by
  rw [Builder.closeThrough, h, List.dropWhile_cons_of_neg (by rw [ho]; decide)]
  rfl

end Innermost

section Entering

variable {names : List Name} {b : Builder} {tag : TagToken}

theorem Ready.endParagraph (h : Ready names b) (hp : inParagraph names = false) :
    b.endParagraph = b := by
  -- The scope is asked by names, so the names decide.
  have hscope : b.hasInScope .button "p" = false := by
    rw [Builder.hasInScope, ← has_unnumbered .button (·.isHtml "p"), h.names]
    exact hp
  rw [Builder.endParagraph, hscope, if_neg Bool.false_ne_true]

/-- Whether an element of a name is open and not hidden can be told from the names. -/
theorem Still.hasInScope (h : Still names b) {s : Scope} {name : String}
    (hnone : s.has (·.name.isHtml name) (unnumbered names) = false) :
    b.hasInScope s name = false := by
  rwa [← h.names, has_unnumbered s (·.isHtml name)] at hnone

/-- The state inside an element that a start tag in a body opens. -/
def Builder.opened (b : Builder) (tag : TagToken) (formatting : List Entry) : Builder :=
  { b.entered (.html tag.name) (Foreign.attributesIn .html tag.attributes) formatting with
    skipsLineFeed := skipping.contains tag.name }

/-- An element is opened if it is put in its place and the mode and the form are set as
    its name asks for. -/
theorem Ready.openElement (h : Ready names b) (htemplate : tag.name ≠ "template")
    (hskips : tag.name ∉ skipping) :
    { b.openElement tag with
      mode := modeFor (.html tag.name :: names)
      form := if tag.name = "form" then some b.nextId else b.form } =
      b.opened tag b.formatting := by
  have hname : (Name.html tag.name).isIn ["template"] = false := by
    simpa [Name.isIn, Name.html] using htemplate
  have hskip : skipping.contains tag.name = false :=
    Bool.eq_false_iff.2 fun hc => hskips (List.contains_iff_mem.1 hc)
  rw [h.toStill.openElement]
  simp only [Builder.opened, Builder.entered, h.modeOf_entered hname b.nextId, hskip,
    h.skipsLineFeed]
  simp [Name.isHtml, Name.html]

/-- Most names ask for nothing. -/
theorem Ready.mode_opened (h : Ready names b) (hmodal : tag.name ∉ modal) :
    modeFor (.html tag.name :: names) = b.mode := by
  have hname : (Name.html tag.name).isIn modal = false := by
    simpa [Name.isIn, Name.html] using hmodal
  rw [modeFor_cons_of_not_modal h.names_ne_nil hname, h.mode]

/-- A name that asks for nothing is only put in its place. -/
theorem Ready.openElement_plain (h : Ready names b) (hmodal : tag.name ∉ modal)
    (hform : tag.name ≠ "form") (hskips : tag.name ∉ skipping) :
    b.openElement tag = b.opened tag b.formatting := by
  rw [← h.openElement (fun heq => hmodal (heq ▸ by decide)) hskips, h.mode_opened hmodal,
    if_neg hform, h.toStill.openElement]

/-- An element that leaves out a line feed is opened like most. -/
theorem Ready.openElement_skipping (h : Ready names b) (hskips : tag.name ∈ skipping) :
    { b.openElement tag with skipsLineFeed := true } = b.opened tag b.formatting := by
  -- None of these names asks for a mode or a form.
  have hall : ∀ n ∈ skipping, n ∉ modal ∧ (Name.html n).isHtml "form" = false := by decide
  rcases hall _ hskips with ⟨hmodal, hform⟩
  have hname : (Name.html tag.name).isIn modal = false := by
    simpa [Name.isIn, Name.html] using hmodal
  rw [h.toStill.openElement]
  simp only [Builder.opened, Builder.entered, h.mode_entered hname, hform,
    List.contains_iff_mem.2 hskips, Bool.false_eq_true, if_false]

/-- The limit on like elements only drops one from the list. -/
theorem limitFormatting_eq (b : Builder) (tag : TagToken) :
    ∃ f, f.Sublist b.formatting ∧ b.limitFormatting tag = { b with formatting := f } := by
  unfold Builder.limitFormatting
  split
  · exact ⟨_, List.filter_sublist, rfl⟩
  · exact ⟨_, List.Sublist.refl _, rfl⟩

/-- Formatting elements are neither modes nor forms, and leave out no line feed. -/
theorem formatting_spec {name : String} (h : isFormatting (.html name) = true) :
    name ∉ modal ∧ name ≠ "form" ∧ name ∉ skipping := by
  have hall : ∀ n ∈ "a" :: "nobr" :: phrases, n ∉ modal ∧ n ≠ "form" ∧ n ∉ skipping := by decide
  exact hall name (by simpa [isFormatting, Name.isIn, Name.html] using h)

/-- A formatting element is put on the list when it is opened. -/
theorem Ready.openFormatting (h : Ready names b) (hname : isFormatting (.html tag.name) = true) :
    ∃ f, f.Sublist (b.remembering (.html tag.name) tag) ∧
      b.openFormatting tag = b.opened tag f := by
  rcases limitFormatting_eq b tag with ⟨f, hf, hlimit⟩
  rcases formatting_spec hname with ⟨hmodal, hform, hskips⟩
  refine ⟨.element ⟨b.nextId, .html tag.name⟩ tag :: f, ?_, ?_⟩
  · rw [Builder.remembering, if_pos hname]
    exact hf.cons_cons _
  -- Dropping an entry leaves the rest of the state as it was.
  · have hready : Ready names { b with formatting := f } :=
      { h with formatting := fun e he => h.formatting e (hf.subset he) }
    rw [Builder.openFormatting, hlimit, Builder.openEntry,
      hready.openElement_plain hmodal hform hskips]
    rfl

/-- What is not sorted is left to the rules of its own name. -/
theorem startInBody_of_not_sorted (b : Builder) (h : tag.name ∉ sorted) :
    b.startInBody tag = b.startOther tag := by
  simp only [sorted, List.mem_append, not_or] at h
  rcases h with ⟨⟨⟨⟨⟨⟨⟨hblocks, hphrases⟩, hmisplaced⟩, hmetadata⟩, hheadings⟩, henclosures⟩,
    hinLine⟩, hplain⟩
  simp only [Builder.startInBody, List.contains_eq_mem, decide_eq_true_eq, if_neg hblocks,
    if_neg hphrases, if_neg hmisplaced, if_neg hmetadata, if_neg hheadings, if_neg henclosures,
    if_neg hinLine, if_neg hplain]

/-- Without a link to end, a link is only opened. -/
theorem Ready.endLink (h : Ready names b) (hlink : names.any (·.isHtml "a") = false) :
    b.endLink = b := by
  unfold Builder.endLink
  dsimp only
  split
  · rfl
  · rename_i o hsome
    -- A link on the list would be open.
    rcases List.exists_of_findSome?_eq_some hsome with ⟨e, he, hlinked⟩
    rcases h.formatting e (List.takeWhile_subset _ he) with rfl | ⟨o', ho, tag, rfl⟩
    · simp at hlinked
    · rw [← h.names, List.any_map, List.any_eq_false] at hlink
      exact absurd ((if_neg (hlink o' ho)).symm.trans hlinked) (by simp)

/-- Without an item to end, the start tag of an item only opens it. -/
theorem Ready.startItem (h : Ready names b) {items : List String}
    (hnone : (itemToEnd? items (unnumbered names)).isNone = true)
    (hp : inParagraph names = false) : b.startItem items tag = b.openElement tag := by
  rw [← h.names, itemToEnd?_unnumbered, Option.isNone_iff_eq_none] at hnone
  rw [Builder.startItem, hnone]
  simp only [h.endParagraph hp]

/-- Where no form is open none is remembered. -/
theorem Still.outside_forms (h : Still names b)
    (hnone : names.any (·.isIn ["form", "template"]) = false) :
    b.form = none ∧ b.inTemplate = false := by
  rw [← h.names, List.any_map, List.any_eq_false] at hnone
  -- A form or a template among the open elements would show in the names.
  have hneither (name : String) (hmem : name ∈ ["form", "template"]) :
      ∀ o ∈ b.stack, ¬ o.name.isHtml name = true := by
    intro o ho hname
    refine hnone o ho ?_
    simp only [Name.isHtml, Bool.and_eq_true, beq_iff_eq] at hname
    rw [Function.comp_apply, Name.isIn, hname.1, hname.2, Bool.and_eq_true]
    exact ⟨rfl, List.contains_iff_mem.2 hmem⟩
  constructor
  · rw [h.form, Option.map_eq_none_iff, List.find?_eq_none]
    exact hneither "form" (by decide)
  · exact List.any_eq_false.2 (hneither "template" (by decide))

/-- A form that is opened where none is open is the form from then on. -/
theorem Ready.startForm (h : Ready names b) (hname : tag.name = "form")
    (hnone : names.any (·.isIn ["form", "template"]) = false) (hp : inParagraph names = false) :
    b.startForm tag = b.opened tag b.formatting := by
  rcases h.outside_forms hnone with ⟨hform, htemplate⟩
  rw [← h.openElement (by rw [hname]; decide) (by rw [hname]; decide),
    h.mode_opened (by rw [hname]; decide), if_pos hname]
  simp only [Builder.startForm, hform, htemplate, h.endParagraph hp, Option.isSome_none,
    Bool.false_and, Bool.false_eq_true, if_false]
  rw [h.toStill.openElement]

theorem Ready.openTable (h : Ready names b) (hname : tag.name = "table") :
    { b.openElement tag with mode := .inTable } = b.opened tag b.formatting := by
  have hmode : modeFor (.html tag.name :: names) = .inTable := by
    rw [hname]
    exact modeFor_cons h.names_ne_nil _
  rw [← h.openElement (by rw [hname]; decide) (by rw [hname]; decide), hmode,
    if_neg (by rw [hname]; decide), h.toStill.openElement]

/-- The mode inside a choice depends on whether there is a table around it. -/
theorem Ready.startSelect (h : Ready names b) (hflow : isFlow (modeFor names) = true)
    (hname : tag.name = "select")
    (hselect : selectMode (unnumbered names) =
      if modeFor names = .inBody then InsertionMode.inSelect else .inSelectInTable) :
    b.startSelect tag = b.opened tag b.formatting := by
  have hcons : modeFor (.html tag.name :: names) = selectMode (unnumbered names) := by
    rw [hname]
    exact modeFor_cons h.names_ne_nil _
  -- Whether there is a table around is asked of the mode, and the condition of the names.
  have hmode : (if [.inTable, .inCaption, .inTableBody, .inRow, .inCell].contains b.mode then
      InsertionMode.inSelectInTable else .inSelect) = selectMode (unnumbered names) := by
    rw [hselect, h.mode]
    revert hflow
    cases modeFor names with
    | inBody | inCaption | inCell => exact fun _ => rfl
    | _ => exact fun hflow => absurd hflow Bool.false_ne_true
  rw [← h.openElement (by rw [hname]; decide) (by rw [hname]; decide), hcons,
    if_neg (by rw [hname]; decide)]
  simp only [Builder.startSelect, h.reopenFormatting, hmode]
  rw [h.toStill.openElement]

/-- Without a heading to end, a heading is only opened. -/
theorem Ready.startHeading (h : Ready names b) (hheading : tag.name ∈ Name.headings)
    (hends : endsNothing names tag.name = true) (hp : inParagraph names = false) :
    b.startInBody tag = b.openElement tag := by
  have hdisjoint : ∀ n ∈ Name.headings, n ∉ blocks ++ phrases ++ misplaced ++ metadata := by decide
  have hother := hdisjoint _ hheading
  simp only [List.mem_append, not_or] at hother
  rcases hother with ⟨⟨⟨hblock, hphrase⟩, hmisplaced⟩, hmetadata⟩
  -- A heading ends the one that it would stand directly inside.
  have hcurrent : b.currentIsIn Name.headings = false := by
    rw [endsNothing, if_pos (List.contains_iff_mem.2 hheading), h.innermost_names,
      Bool.not_eq_true'] at hends
    exact hends
  rw [Builder.startInBody, if_neg fun hc => hblock (List.contains_iff_mem.1 hc),
    if_neg fun hc => hphrase (List.contains_iff_mem.1 hc),
    if_neg fun hc => hmisplaced (List.contains_iff_mem.1 hc),
    if_neg fun hc => hmetadata (List.contains_iff_mem.1 hc),
    if_pos (List.contains_iff_mem.2 hheading), h.endParagraph hp]
  simp only [hcurrent, Bool.false_eq_true, if_false]

/-- An element whose end tag may be left out is not ended if it is not innermost. -/
theorem Still.impliedEnds (h : Still names b) {implied : List String}
    (hnone : (innermost names).isIn implied = false) : b.impliedEnds implied = b := by
  cases hstack : b.stack with
  | nil => exact absurd hstack h.nonempty
  | cons o os =>
      rw [h.innermost_names, current_of_stack hstack] at hnone
      exact impliedEnds_of_stack hstack hnone

/-- An annotation ends the one before it only inside what it belongs to. -/
theorem Still.endAnnotation (h : Still names b) {implied : List String}
    (hnone : (!inRuby names || !(innermost names).isIn implied) = true) :
    (if b.hasInScope .general "ruby" then b.impliedEnds implied else b) = b := by
  rw [Bool.or_eq_true, Bool.not_eq_true', Bool.not_eq_true'] at hnone
  rcases hnone with houtside | hnone
  · rw [h.hasInScope houtside, if_neg Bool.false_ne_true]
  · rw [h.impliedEnds hnone, ite_self]

theorem Still.endOption (h : Still names b) (hnone : (innermost names).isHtml "option" = false) :
    (if b.currentIs "option" then b.pop else b) = b := by
  rw [Builder.currentIs, ← h.innermost_names, hnone, if_neg Bool.false_ne_true]

/-- A start tag with rules of its own does what the rules for others of its kind do, since
    there is nothing to end. -/
theorem Ready.startOther (h : Ready names b) (hflow : isFlow (modeFor names) = true)
    (hunopened : tag.name ∉ unopened)
    (hparagraph : tag.name ∈ paragraphEnders → inParagraph names = false)
    (hends : endsNoOther names tag.name = true) :
    b.startOther tag = b.opened tag b.formatting ∨
      isFormatting (.html tag.name) = true ∧ b.startOther tag = b.openFormatting tag := by
  -- Where nothing is ended the element is opened, and its name says whether by the book.
  have hopen (hplain : tag.name ∉ modal ++ ["form"] ++ skipping) :
      b.openElement tag = b.opened tag b.formatting := by
    simp only [List.mem_append, List.mem_singleton, not_or] at hplain
    exact h.openElement_plain hplain.1.1 hplain.1.2 hplain.2
  unfold Builder.startOther
  split
  case h_1 hname | h_2 hname =>
    have hskips : tag.name ∈ skipping := by rw [hname]; decide
    rw [h.endParagraph (hparagraph (by rw [hname]; decide))]
    exact .inl (h.openElement_skipping hskips)
  case h_3 hname =>
    rw [hname, endsNoOther, Bool.not_eq_true'] at hends
    exact .inl (h.startForm hname hends (hparagraph (by rw [hname]; decide)))
  -- Items end no item, buttons no button, and so on. The names say what there is to end.
  case h_4 hname | h_5 hname | h_6 hname =>
    rw [hname] at hends
    rw [h.startItem hends (hparagraph (by rw [hname]; decide)), hopen (by rw [hname]; decide)]
    exact .inl rfl
  case h_13 hname =>
    rw [hname, endsNoOther, Bool.not_eq_true'] at hends
    simp only [h.hasInScope hends, Bool.false_eq_true, if_false]
    rw [h.reopenFormatting, hopen (by rw [hname]; decide)]
    exact .inl rfl
  case h_14 hname =>
    rw [hname, endsNoOther, Bool.not_eq_true'] at hends
    rw [h.endLink hends, h.reopenFormatting]
    exact .inr ⟨by rw [hname]; decide, rfl⟩
  case h_15 hname =>
    rw [hname, endsNoOther, Bool.not_eq_true'] at hends
    simp only [h.reopenFormatting, h.hasInScope hends, Bool.false_eq_true, if_false]
    exact .inr ⟨by rw [hname]; decide, trivial⟩
  case h_16 hname =>
    rw [h.endParagraph (hparagraph (by rw [hname]; decide))]
    exact .inl (h.openTable hname)
  case h_19 hname =>
    rw [hname, endsNoOther, beq_iff_eq] at hends
    exact .inl (h.startSelect hflow hname hends)
  case h_20 hname | h_21 hname =>
    rw [hname, endsNoOther, Bool.not_eq_true'] at hends
    simp only [h.endOption hends]
    rw [h.reopenFormatting, hopen (by rw [hname]; decide)]
    exact .inl rfl
  case h_22 hname | h_23 hname | h_24 hname | h_25 hname =>
    rw [hname] at hends
    simp only [h.endAnnotation hends, Builder.impliedEndsExcept]
    exact .inl (hopen (by rw [hname]; decide))
  case h_28 =>
    have hruled : ∀ n ∈ modal ++ ["form"] ++ skipping,
        n ∈ unopened ∨ n ∈ ["pre", "listing", "form", "table", "select"] := by decide
    rw [h.reopenFormatting, hopen fun hmem => ?_]
    · exact .inl rfl
    -- The names that ask for something have cases of their own above.
    · rcases hruled _ hmem with hmem | hmem
      · exact hunopened hmem
      · simp only [List.mem_cons, List.not_mem_nil, or_false] at hmem
        rcases hmem with hname | hname | hname | hname | hname
        all_goals exact absurd hname (by assumption)
  all_goals
    rename_i hname
    exact absurd (by rw [hname]; decide) hunopened

/-- The start tag of an element that ends nothing opens it, as one that formats, as one
    that keeps formatting inside, or as any other. -/
theorem Ready.startInBody_cases (h : Ready names b) (hflow : isFlow (modeFor names) = true)
    (hadmits : admitsInBody names tag.name = true) :
    b.startInBody tag = b.opened tag b.formatting ∨
      (isFormatting (.html tag.name) = true ∧ b.startInBody tag = b.openFormatting tag) ∨
      (tag.name ∈ enclosures ∧ b.startInBody tag = (b.openElement tag).markFormatting) := by
  simp only [admitsInBody, Bool.and_eq_true, Bool.or_eq_true, Bool.not_eq_true',
    List.contains_eq_mem, decide_eq_false_iff_not] at hadmits
  rcases hadmits with ⟨⟨hunopened, hparagraph⟩, hends⟩
  have hparagraph (hmem : tag.name ∈ paragraphEnders) : inParagraph names = false :=
    hparagraph.resolve_left (not_not_intro hmem)
  have hplain : ∀ n ∈ blocks ++ Name.headings, n ∈ paragraphEnders ∧ n ∉ modal ∧ n ≠ "form" ∧
      n ∉ skipping := by decide
  have hopen (hmem : tag.name ∈ blocks ++ Name.headings) :
      b.openElement tag = b.opened tag b.formatting := by
    rcases hplain _ hmem with ⟨_, hmodal, hform, hskips⟩
    exact h.openElement_plain hmodal hform hskips
  -- The sorts are asked in the order of the rules, and each excludes the later ones.
  by_cases hblock : tag.name ∈ blocks
  · have hmem := List.mem_append_left Name.headings hblock
    rw [Builder.startInBody, if_pos (List.contains_iff_mem.2 hblock),
      h.endParagraph (hparagraph (hplain _ hmem).1), hopen hmem]
    exact .inl rfl
  by_cases hphrase : tag.name ∈ phrases
  · have hformatting : isFormatting (.html tag.name) = true := by
      simp [isFormatting, Name.isIn, Name.html, hphrase]
    rw [Builder.startInBody, if_neg fun hc => hblock (List.contains_iff_mem.1 hc),
      if_pos (List.contains_iff_mem.2 hphrase), h.reopenFormatting]
    exact .inr (.inl ⟨hformatting, rfl⟩)
  by_cases hheading : tag.name ∈ Name.headings
  · have hmem := List.mem_append_right blocks hheading
    rw [h.startHeading hheading hends (hparagraph (hplain _ hmem).1), hopen hmem]
    exact .inl rfl
  simp only [unopened, List.mem_append, not_or] at hunopened
  rcases hunopened with ⟨⟨⟨⟨hmisplaced, hmetadata⟩, hinLine⟩, hempty⟩, hothers⟩
  by_cases henclosure : tag.name ∈ enclosures
  · rw [Builder.startInBody, if_neg fun hc => hblock (List.contains_iff_mem.1 hc),
      if_neg fun hc => hphrase (List.contains_iff_mem.1 hc),
      if_neg fun hc => hmisplaced (List.contains_iff_mem.1 hc),
      if_neg fun hc => hmetadata (List.contains_iff_mem.1 hc),
      if_neg fun hc => hheading (List.contains_iff_mem.1 hc),
      if_pos (List.contains_iff_mem.2 henclosure), h.reopenFormatting]
    exact .inr (.inr ⟨henclosure, rfl⟩)
  · have hsorted : tag.name ∉ sorted := by
      simp only [sorted, List.mem_append, not_or]
      exact ⟨⟨⟨⟨⟨⟨⟨hblock, hphrase⟩, hmisplaced⟩, hmetadata⟩, hheading⟩, henclosure⟩, hinLine⟩,
        hempty⟩
    rw [endsNothing, if_neg fun hc => hheading (List.contains_iff_mem.1 hc)] at hends
    have hunopened : tag.name ∉ unopened := by
      simp only [unopened, List.mem_append, not_or]
      exact ⟨⟨⟨⟨hmisplaced, hmetadata⟩, hinLine⟩, hempty⟩, hothers⟩
    rw [startInBody_of_not_sorted b hsorted]
    exact (h.startOther hflow hunopened hparagraph hends).imp_right .inl

/-- The start tag of an admitted element opens it and does nothing else. -/
theorem Ready.startInBody (h : Ready names b) (hflow : isFlow (modeFor names) = true)
    (hadmits : admitsInBody names tag.name = true) :
    ∃ f, f.Sublist (b.remembering (.html tag.name) tag) ∧ b.startInBody tag = b.opened tag f := by
  rcases h.startInBody_cases hflow hadmits with hopen | ⟨hformatting, hopen⟩ | ⟨hmem, hopen⟩
  · exact ⟨_, formatting_sublist_remembering b (.html tag.name) tag, hopen⟩
  · rw [hopen]
    exact h.openFormatting hformatting
  · have hall : ∀ n ∈ enclosures, isFormatting (.html n) = false ∧
        (Name.html n).isIn marking = true ∧ n ∉ modal ∧ n ≠ "form" ∧ n ∉ skipping := by
      decide
    rcases hall _ hmem with ⟨hformatting, hmarking, hmodal, hform, hskips⟩
    -- The mark keeps the formatting outside from being opened again inside.
    refine ⟨.mark :: b.formatting, ?_, ?_⟩
    · rw [Builder.remembering, hformatting, if_neg Bool.false_ne_true, if_pos hmarking]
    · rw [hopen, h.openElement_plain hmodal hform hskips]
      rfl

end Entering

section Leaving

variable {names : List Name} {b c : Builder} {name : String} {o : Opened} {os : List Opened}
  {tag : TagToken} {f : List Entry}

theorem closeNamed_of_stack (h : c.stack = o :: os) (ho : o.name = .html name) :
    c.closeNamed name = { c with stack := os } :=
  closeThrough_of_stack h (by rw [ho]; simp [Name.isHtml, Name.html])

/-- The innermost element is closed if its end tag may not be left out. -/
theorem close_of_stack (h : c.stack = o :: os) (ho : o.name = .html name) {implied : List String}
    (himplied : name ∉ implied) :
    (c.impliedEnds implied).closeNamed name = { c with stack := os } := by
  have hname : o.name.isIn implied = false := by
    rw [ho]
    simpa [Name.isIn, Name.html] using himplied
  rw [impliedEnds_of_stack h hname, closeNamed_of_stack h ho]

/-- A formatting element that is innermost and the latest on the list. -/
theorem adoptOnce_of_stack (h : c.stack = o :: os) (htag : tag.name = name)
    (hlist : c.formatting = .element o tag :: f) (hfresh : ∀ e ∈ f, e.hasId o.id = false) :
    c.adoptOnce name = ({ c with stack := os, formatting := f }, false) := by
  have hfind : c.findFormatting? name = some (o, tag) := by
    rw [Builder.findFormatting?, hlist, List.takeWhile_cons_of_pos rfl, List.findSome?_cons]
    simp [htag]
  have hopen : c.isOpen o.id = true := by simp [Builder.isOpen, h]
  have hscope : Scope.general.has (·.id == o.id) c.stack = true := by
    rw [h]
    exact has_innermost _ (beq_self_eq_true o.id) os
  -- Nothing is open inside the element, so no block has to be moved.
  have hinside : c.stack.takeWhile (·.id != o.id) = [] := by
    rw [h]
    exact List.takeWhile_cons_of_neg (by simp)
  have hdrop : c.dropFormatting o.id = { c with formatting := f } := by
    have hself : Entry.hasId o.id (.element o tag) = true := beq_self_eq_true o.id
    rw [Builder.dropFormatting, hlist, List.filter_cons_of_neg (by rw [hself]; decide),
      List.filter_eq_self.2 fun e he => by rw [hfresh e he]; rfl]
  rw [Builder.adoptOnce, hfind]
  simp only [hopen, Bool.not_true, Bool.false_eq_true, if_false, hscope, hinside, List.length_nil,
    List.reverse_nil, List.takeWhile_nil, Nat.sub_self, List.take_nil, hdrop]
  rw [h]
  rfl

/-- The end tag of a formatting element closes it if it is innermost, whether it
    is on the list or not. -/
theorem adopt_of_stack (h : c.stack = o :: os) (ho : o.name = .html name) (htag : tag.name = name)
    (hlist : c.formatting = .element o tag :: f ∨ c.formatting = f)
    (hfresh : ∀ e ∈ f, e.hasId o.id = false) :
    c.adopt name = { c with stack := os, formatting := f } := by
  have hcurrent : c.currentIs name = true := by
    rw [Builder.currentIs, current_of_stack h, ho]
    simp [Name.isHtml, Name.html]
  rw [Builder.adopt, hcurrent, current_of_stack h, Bool.true_and]
  rcases hlist with hlist | hlist
  · have hknown : (c.formattingTag? o.id).isNone = false := by
      rw [Builder.formattingTag?, hlist, List.findSome?_cons]
      simp
    rw [hknown, if_neg Bool.false_ne_true, Builder.adoptRounds,
      adoptOnce_of_stack h htag hlist hfresh]
  -- An element that is not on the list any more is closed like any other.
  · have hunknown : (c.formattingTag? o.id).isNone = true := by
      rw [Builder.formattingTag?, hlist, Option.isNone_iff_eq_none, List.findSome?_eq_none_iff]
      intro e he
      have hid := hfresh e he
      cases e with
      | mark => rfl
      | element o' tag' => exact if_neg (by rw [Entry.hasId] at hid; rw [hid]; decide)
    rw [hunknown, if_pos rfl, Builder.pop, h, ← hlist]
    rfl

/-- The end tag of a formatting element that was admitted. -/
theorem Ready.adopt (h : Ready names c) (ho : o.name = .html name) (hstack : c.stack = o :: b.stack)
    (hb : Ready (names.drop 1) b) (hlist : c.formatting.Sublist (.element o tag :: b.formatting))
    (htag : tag.name = name) :
    ∃ f, f.Sublist b.formatting ∧ c.adopt name = { c with stack := b.stack, formatting := f } := by
  -- The other elements on the list are open in the stack below, under other numbers.
  have hfresh : ∀ e ∈ b.formatting, e.hasId o.id = false := by
    intro e he
    rcases hb.formatting e he with rfl | ⟨o', ho', tag', rfl⟩
    · rfl
    · have hdistinct := h.distinct
      rw [hstack, List.map_cons, List.nodup_cons] at hdistinct
      refine beq_eq_false_iff_ne.2 fun hid => hdistinct.1 ?_
      rw [← hid]
      exact List.mem_map_of_mem ho'
  rcases List.sublist_cons_iff.1 hlist with hsub | ⟨f, hf, hsub⟩
  · exact ⟨_, hsub, adopt_of_stack hstack ho htag (.inr rfl) fun e he =>
      hfresh e (hsub.subset he)⟩
  · exact ⟨f, hsub, adopt_of_stack hstack ho htag (.inl hf) fun e he =>
      hfresh e (hsub.subset he)⟩

/-- The innermost element is closed by a tag of its name. -/
theorem closeOther_of_stack (h : c.stack = o :: os) (ho : o.name = .html name) :
    c.closeOther name = { c with stack := os } := by
  have hname : o.name.isHtml name = true := by
    rw [ho]
    simp [Name.isHtml, Name.html]
  rw [Builder.closeOther, h, stackWithout?, if_pos hname]
  rfl

theorem hasInScope_of_stack (h : c.stack = o :: os) (ho : o.name = .html name) (s : Scope) :
    c.hasInScope s name = true := by
  rw [Builder.hasInScope, h]
  refine has_innermost s ?_ os
  rw [ho]
  simp [Name.isHtml, Name.html]

theorem closeHeading_of_stack (hheading : Name.headings.contains name = true)
    (h : c.stack = o :: os) (ho : o.name = .html name) :
    c.hasAnyInScope .general Name.headings = true ∧
      (c.impliedEnds Name.impliedEnds).closeThrough (·.isIn Name.headings) =
        { c with stack := os } := by
  have hstays : ∀ n ∈ Name.headings, n ∉ Name.impliedEnds := by decide
  have hname : o.name.isIn Name.headings = true := by
    rw [ho, Name.isIn, Name.html]
    exact hheading
  -- The end tag of a heading may not be left out, so the heading is still open.
  have himplied : o.name.isIn Name.impliedEnds = false := by
    rw [ho]
    simpa [Name.isIn, Name.html] using hstays _ (List.contains_iff_mem.1 hheading)
  constructor
  · rw [Builder.hasAnyInScope, h]
    exact has_innermost _ hname os
  · rw [impliedEnds_of_stack h himplied, closeThrough_of_stack h hname]

/-- The names that are not admitted are closed by peculiar rules. -/
theorem not_mem_of_admitsInBody (hadmits : admitsInBody names name = true) :
    name ∉ ["body", "html", "template", "br", "caption", "td", "th"] := by
  have hall : ∀ n ∈ ["body", "html", "template", "br", "caption", "td", "th"], n ∈ unopened := by
    decide
  simp only [admitsInBody, Bool.and_eq_true, Bool.not_eq_true', List.contains_eq_mem,
    decide_eq_false_iff_not] at hadmits
  exact fun hmem => hadmits.1.1 (hall _ hmem)

/-- The end tag of an admitted element that is neither a formatting element nor a form, and
    keeps no formatting inside. -/
theorem endInBody_of_stack (hadmits : admitsInBody names name = true)
    (hformatting : isFormatting (.html name) = false) (henclosure : name ∉ enclosures)
    (hform : name ≠ "form") (h : c.stack = o :: os) (ho : o.name = .html name) :
    c.endInBody name = { c with stack := os } := by
  have hclose := fun implied (himplied : name ∉ implied) => close_of_stack h ho himplied
  have hscope := hasInScope_of_stack h ho
  have hphrase : phrases.contains name = false := by
    simp only [isFormatting, Name.isIn, Name.html, List.contains_cons, Bool.and_eq_false_iff,
      Bool.or_eq_false_iff] at hformatting
    rcases hformatting with hspace | ⟨_, _, hphrase⟩
    · simp at hspace
    · exact hphrase
  have hpeculiar := not_mem_of_admitsInBody hadmits
  unfold Builder.endInBody
  -- Blocks, headings and the others each have a rule, and all of them close the element.
  by_cases hblock : closedAsBlocks.contains name = true
  · have hstays : ∀ n ∈ closedAsBlocks, n ∉ Name.impliedEnds := by decide
    rw [if_pos hblock, hscope, if_pos rfl, hclose _ (hstays _ (List.contains_iff_mem.1 hblock))]
  rw [if_neg hblock, hphrase, if_neg Bool.false_ne_true]
  by_cases hheading : Name.headings.contains name = true
  · rcases closeHeading_of_stack hheading h ho with ⟨hany, hclosed⟩
    rw [if_pos hheading, hany, if_pos rfl, hclosed]
  rw [if_neg hheading, if_neg fun hc => henclosure (List.contains_iff_mem.1 hc)]
  split
  case h_4 => exact absurd rfl hform
  case h_5 =>
    rw [hscope, if_pos rfl, Builder.closeParagraph, Builder.impliedEndsExcept,
      hclose _ (by decide)]
  case h_6 => rw [hscope, if_pos rfl, Builder.impliedEndsExcept, hclose _ (by decide)]
  case h_7 => rw [hscope, if_pos rfl, Builder.impliedEndsExcept, hclose _ (by decide)]
  case h_8 => rw [hscope, if_pos rfl, Builder.impliedEndsExcept, hclose _ (by decide)]
  case h_9 | h_10 => exact absurd hformatting (by decide)
  case h_12 => exact closeOther_of_stack h ho
  all_goals exact absurd hpeculiar (by decide)

/-- The end tags of formatting elements go to the adoption. -/
theorem endInBody_of_formatting (h : isFormatting (.html name) = true) :
    c.endInBody name = c.adopt name := by
  have hmem : name ∈ "a" :: "nobr" :: phrases := by
    simpa [isFormatting, Name.isIn, Name.html] using h
  rcases List.mem_cons.1 hmem with rfl | hmem
  · rfl
  rcases List.mem_cons.1 hmem with rfl | hphrase
  · rfl
  · have hdisjoint : ∀ n ∈ phrases, n ∉ closedAsBlocks := by decide
    have hblock : ¬ closedAsBlocks.contains name = true := fun hc =>
      hdisjoint _ hphrase (List.contains_iff_mem.1 hc)
    unfold Builder.endInBody
    rw [if_neg hblock, if_pos (List.contains_iff_mem.2 hphrase)]

/-- The list goes back to the mark, or further if the mark is not on it any more. -/
theorem clear_sublist {g : List Entry} (h : g.Sublist (.mark :: f)) :
    ((g.dropWhile Entry.isElement).drop 1).Sublist f := by
  rcases List.sublist_cons_iff.1 h with hsub | ⟨g, rfl, hsub⟩
  · exact ((List.drop_sublist _ _).trans (List.dropWhile_sublist _)).trans hsub
  · exact hsub

/-- The end tag of an element that keeps formatting inside takes the list back. -/
theorem endInBody_of_enclosure (henclosure : name ∈ enclosures) (h : c.stack = o :: os)
    (ho : o.name = .html name) :
    c.endInBody name = { c with
      stack := os, formatting := (c.formatting.dropWhile Entry.isElement).drop 1 } := by
  have hall : ∀ n ∈ enclosures, n ∉ closedAsBlocks ∧ n ∉ phrases ∧ n ∉ Name.headings ∧
      n ∉ Name.impliedEnds := by decide
  rcases hall _ henclosure with ⟨hblock, hphrase, hheading, himplied⟩
  unfold Builder.endInBody
  rw [if_neg fun hc => hblock (List.contains_iff_mem.1 hc),
    if_neg fun hc => hphrase (List.contains_iff_mem.1 hc),
    if_neg fun hc => hheading (List.contains_iff_mem.1 hc),
    if_pos (List.contains_iff_mem.2 henclosure), hasInScope_of_stack h ho, if_pos rfl,
    close_of_stack h ho himplied]
  rfl

/-- The end tag of the form that is open closes it, if it is innermost. -/
theorem Ready.endForm (h : Ready (.html "form" :: names) c) (houtside : b.inTemplate = false)
    (hstack : c.stack = o :: b.stack) (ho : o.name = .html "form") :
    c.endForm = { c with stack := b.stack, form := none } := by
  have htemplate : c.inTemplate = false := by
    rw [Builder.inTemplate, hstack, List.any_cons, ho, Bool.or_eq_false_iff]
    exact ⟨rfl, houtside⟩
  -- The form that is remembered is the innermost element.
  have hform : c.form = some o.id := by
    rw [h.form, hstack, List.find?_cons_of_pos (by rw [ho]; rfl)]
    rfl
  have hscope : Scope.general.has (·.id == o.id) c.stack = true := by
    rw [hstack]
    exact has_innermost _ (beq_self_eq_true o.id) b.stack
  -- No other element has the number of the form.
  have hothers : (o :: b.stack).filter (·.id != o.id) = b.stack := by
    have hdistinct := h.distinct
    rw [hstack, List.map_cons, List.nodup_cons] at hdistinct
    rw [List.filter_cons_of_neg (by simp), List.filter_eq_self]
    exact fun o' ho' => bne_iff_ne.2 fun hid => hdistinct.1 (hid ▸ List.mem_map_of_mem ho')
  have himplied : ({ c with form := none } : Builder).impliedEnds Name.impliedEnds =
      { c with form := none } :=
    impliedEnds_of_stack (b := { c with form := none }) hstack (by rw [ho]; decide)
  rw [Builder.endForm, htemplate, if_neg Bool.false_ne_true, hform]
  dsimp only
  rw [if_pos hscope, himplied, Builder.dropOpened]
  dsimp only
  rw [hstack, hothers]

/-- Inside an element that is no form the same form is open as outside. -/
theorem Still.form_eq {n : Name} (hb : Still names b) (h : Still (n :: names) c)
    (hstack : c.stack = o :: b.stack) (ho : o.name.isHtml "form" = false) : c.form = b.form := by
  rw [h.form, hb.form, hstack, List.find?_cons_of_neg (by rw [ho]; decide)]

/-- The end tag of an admitted element closes it. -/
theorem Ready.endInBody (hb : Ready names b) (hadmits : admitsInBody names name = true)
    (h : Ready (.html name :: names) c) (ho : o.name = .html name)
    (hid : o.id = b.nextId) (hstack : c.stack = o :: b.stack) (htag : tag.name = name)
    (hlist : c.formatting.Sublist (b.remembering (.html name) tag)) :
    ∃ f, f.Sublist b.formatting ∧
      c.endInBody name = { c with stack := b.stack, form := b.form, formatting := f } := by
  by_cases hform : name = "form"
  · have hnone : names.any (·.isIn ["form", "template"]) = false := by
      simp only [admitsInBody, hform, Bool.and_eq_true] at hadmits
      exact (Bool.not_eq_true' _).mp hadmits.2
    rcases hb.outside_forms hnone with ⟨houtside, htemplate⟩
    rw [hform] at h ho hlist ⊢
    rw [remembering_of_plain (by decide) (by decide)] at hlist
    exact ⟨_, hlist, by rw [houtside]; exact h.endForm htemplate hstack ho⟩
  -- Only a form changes which form is remembered.
  have hsame : c.form = b.form :=
    hb.toStill.form_eq h.toStill hstack (by rw [ho]; simpa [Name.isHtml, Name.html] using hform)
  cases hformatting : isFormatting (.html name) with
  | true =>
      rw [Builder.remembering, hformatting, if_pos rfl, ← hid, ← ho] at hlist
      rw [endInBody_of_formatting hformatting, ← hsame]
      exact h.adopt ho hstack hb hlist htag
  | false =>
      by_cases henclosure : name ∈ enclosures
      · have hmarking : (Name.html name).isIn marking = true := by
          simp [Name.isIn, Name.html, marking, henclosure]
        rw [Builder.remembering, hformatting, if_neg Bool.false_ne_true, if_pos hmarking] at hlist
        refine ⟨_, clear_sublist hlist, ?_⟩
        rw [endInBody_of_enclosure henclosure hstack ho, ← hsame]
      · have hmarking : (Name.html name).isIn marking = false := by
          have hnot := not_mem_of_admitsInBody hadmits
          simp only [List.mem_cons, List.not_mem_nil, or_false, not_or] at hnot
          simp [Name.isIn, Name.html, marking, henclosure, hnot]
        rw [remembering_of_plain hformatting hmarking] at hlist
        refine ⟨c.formatting, hlist, ?_⟩
        rw [endInBody_of_stack hadmits hformatting henclosure hform hstack ho, ← hsame]

end Leaving

end Html

end SoleRoot

import SoleRoot.Proofs.Html.Items
import SoleRoot.Proofs.Html.Modes

/-!
# A Reader Between Two Nodes

The state in which a reader of HTML starts with a node and in which it is again
behind it.

Between two nodes nothing is unfinished: everything counts as markup, no text of a table
waits for a place, the formatting elements that the reader remembers are open, so that
none is opened again, and a form is remembered if it is open. `Still` says
this of a state, and names the open elements. If the reader is in the mode that these
call for the state is `Ready`. Texts and comments ask for less. Directly inside a template
they are put in their places, too, so for them there is `Receptive`.

Of a node that has been read three things remain: the items that were put into the
innermost element, the next number, and the list of formatting elements, from
which some may have been dropped. `Builder.filled` is the state with these
changes, and it is ready again.

An element is opened by `Builder.entered`. Inside it the state is ready, too, with
one open element more, which may call for another mode. An element that is left by
its end tag takes the mode and the form back to what they were.

## Main definitions

* `Still`: Nothing is unfinished.
* `Ready`, `Receptive`: Besides, nodes or texts are put where they stand.
* `Builder.remembering`: The list of elements to be opened again, behind a start
  tag.
* `Builder.filled`: The state with items more.
* `Builder.entered`: The state inside a new element.

## Theorems

* `Ready.filled`, `Ready.entered`: These states are ready.
* `Still.left_entered`: An element that is left with its items.
* `Still.reopenFormatting`: Nothing is opened again.
* `Ready.look_flow`, `Still.look_foreign`: Which rules apply.
-/

namespace SoleRoot

namespace Html

open Builder

/-- Whether nothing is unfinished inside the open elements `names`, the innermost
    first. -/
structure Still (names : List Name) (b : Builder) : Prop where
  names : b.stack.map (·.name) = names
  nonempty : b.stack ≠ []
  ids : ∀ o ∈ b.stack, o.id < b.nextId
  distinct : (b.stack.map (·.id)).Nodup
  tree : b.tree.every (Item.Below b.nextId)
  reading : b.reading = .data
  skipsLineFeed : b.skipsLineFeed = false
  fostering : b.fostering = false
  returnMode : b.returnMode = .inBody
  pending : b.pending = []
  form : b.form = (b.stack.find? (·.name.isHtml "form")).map (·.id)
  formatting : ∀ e ∈ b.formatting, e = .mark ∨ ∃ o ∈ b.stack, ∃ tag, e = .element o tag

/-- Whether, besides, the reader is in the mode that the open elements call for. -/
structure Ready (opens : List Name) (b : Builder) : Prop extends Still opens b where
  mode : b.mode = modeFor opens
  reset : modeOf b.templateModes b.stack = modeFor opens

/-- Whether, besides, the reader is in a mode that puts texts where they stand. -/
structure Receptive (names : List Name) (b : Builder) : Prop extends Still names b where
  mode : takesText b.mode = true

/-- Whether an element is opened again when what it stands in has ended. -/
def isFormatting (n : Name) : Bool :=
  n.isIn ("a" :: "nobr" :: phrases)

/-- The names of elements inside which nothing is opened again that was opened outside. -/
def marking : List String :=
  enclosures ++ ["caption", "td", "th"]

namespace Builder

/-- The state with items more in the innermost element. -/
def filled (b : Builder) (items : List Item) (nextId : Nat) (formatting : List Entry) : Builder :=
  { b with tree := Item.appendEach b.current.id items b.tree, nextId, formatting }

/-- The state inside a new element of the innermost element. -/
def entered (b : Builder) (name : Name) (attributes : List Attribute) (formatting : List Entry) :
    Builder :=
  { b with
    tree := Item.append b.current.id (.element b.nextId name attributes []) b.tree
    nextId := b.nextId + 1
    stack := ⟨b.nextId, name⟩ :: b.stack
    mode := modeOf b.templateModes (⟨b.nextId, name⟩ :: b.stack)
    form := if name.isHtml "form" then some b.nextId else b.form
    formatting }

/-- The elements to be opened again, with a new element if it is one of them, or with a
    mark if it keeps the others out. -/
def remembering (b : Builder) (name : Name) (tag : TagToken) : List Entry :=
  if isFormatting name then .element ⟨b.nextId, name⟩ tag :: b.formatting
  else if name.isIn marking then .mark :: b.formatting
  else b.formatting

end Builder

theorem filled_filled (b : Builder) (is js : List Item) (k l : Nat) (f g : List Entry) :
    (b.filled is k f).filled js l g = b.filled (is ++ js) l g := by
  simp only [Builder.filled, Item.appendEach, List.foldl_append]
  rfl

/-- Text that is put behind text joins it. -/
theorem filled_filled_text (b : Builder) (cs ds : List Char) (k l : Nat) (f g : List Entry) :
    (b.filled [.text (String.ofList cs)] k f).filled [.text (String.ofList ds)] l g =
      b.filled [.text (String.ofList (cs ++ ds))] l g := by
  rw [filled_filled, String.ofList_append]
  simp only [Builder.filled, Item.appendEach, List.singleton_append, List.foldl_cons,
    List.foldl_nil, Item.append_append_text]

/-- What is remembered of an element that is neither opened again nor keeps others out. -/
theorem remembering_of_plain {b : Builder} {n : Name} (hformatting : isFormatting n = false)
    (hmarking : n.isIn marking = false) (tag : TagToken) :
    b.remembering n tag = b.formatting := by
  rw [Builder.remembering, hformatting, hmarking, if_neg Bool.false_ne_true,
    if_neg Bool.false_ne_true]

/-- Nothing that is remembered is forgotten when an element is opened. -/
theorem formatting_sublist_remembering (b : Builder) (name : Name) (tag : TagToken) :
    b.formatting.Sublist (b.remembering name tag) := by
  unfold Builder.remembering
  split
  · exact List.sublist_cons_self _ _
  split
  · exact List.sublist_cons_self _ _
  · exact List.Sublist.refl _

/-- At most one entry is remembered besides the others: a mark or the new element. -/
theorem exists_remembering_sublist (b : Builder) (name : Name) (tag : TagToken) :
    ∃ entry, (entry = .mark ∨ ∃ tag, entry = .element ⟨b.nextId, name⟩ tag) ∧
      (b.remembering name tag).Sublist (entry :: b.formatting) := by
  unfold Builder.remembering
  split
  · exact ⟨_, .inr ⟨tag, rfl⟩, List.Sublist.refl _⟩
  split
  · exact ⟨_, .inl rfl, List.Sublist.refl _⟩
  · exact ⟨.mark, .inl rfl, List.sublist_cons_self _ _⟩

/-- At the start the root is open, in the mode of the body. -/
theorem ready_start : Ready [.html "html"] {} where
  names := rfl
  nonempty := by decide
  ids := by decide
  distinct := by decide
  tree := by
    rw [Item.every, Item.everyAll]
    exact ⟨by decide, trivial⟩
  mode := rfl
  reset := rfl
  reading := rfl
  skipsLineFeed := rfl
  fostering := rfl
  returnMode := rfl
  pending := rfl
  form := rfl
  formatting := by simp

variable {names : List Name} {b : Builder}

namespace Still

theorem names_ne_nil (h : Still names b) : names ≠ [] := by
  rw [← h.names]
  simpa using h.nonempty

theorem head?_names (h : Still names b) : names.head? = some b.current.name := by
  rw [← h.names]
  cases hstack : b.stack with
  | nil => exact absurd hstack h.nonempty
  | cons o os =>
      rw [Builder.current, hstack]
      rfl

theorem innermost_names (h : Still names b) : innermost names = b.current.name := by
  rw [Html.innermost, h.head?_names, Option.getD_some]

/-- Items may be put into the innermost element, with any numbers above those that were
    given. -/
theorem filled (h : Still names b) {items : List Item} {n : Nat} (hle : b.nextId ≤ n)
    (hitems : Item.everyAll (Item.Below n) items) {formatting : List Entry}
    (hsub : formatting.Sublist b.formatting) : Still names (b.filled items n formatting) where
  names := h.names
  nonempty := h.nonempty
  ids := fun o ho => Nat.lt_of_lt_of_le (h.ids o ho) hle
  distinct := h.distinct
  tree := Item.every_appendEach _ hitems (Item.below_mono hle h.tree)
  reading := h.reading
  skipsLineFeed := h.skipsLineFeed
  fostering := h.fostering
  returnMode := h.returnMode
  pending := h.pending
  form := h.form
  formatting := fun e he => h.formatting e (hsub.subset he)

/-- A new element may be opened inside the innermost one. -/
theorem entered (h : Still names b) (name : Name) (attributes : List Attribute) {entry : Entry}
    (hentry : entry = .mark ∨ ∃ tag, entry = .element ⟨b.nextId, name⟩ tag)
    {formatting : List Entry} (hsub : formatting.Sublist (entry :: b.formatting)) :
    Still (name :: names) (b.entered name attributes formatting) where
  names := by rw [← h.names]; rfl
  nonempty := List.cons_ne_nil _ _
  ids := by
    intro o ho
    rcases List.mem_cons.1 ho with rfl | ho
    · exact Nat.lt_succ_self _
    · exact Nat.lt_succ_of_lt (h.ids o ho)
  distinct := by
    -- The number is new, so no open element has it.
    refine List.nodup_cons.2 ⟨fun hmem => ?_, h.distinct⟩
    rcases List.mem_map.1 hmem with ⟨o, ho, hid⟩
    exact Nat.ne_of_lt (h.ids o ho) hid
  tree := by
    refine Item.every_append _ ?_ _ (Item.below_mono (Nat.le_succ _) h.tree)
    rw [Item.every, Item.everyAll]
    exact ⟨Nat.lt_succ_self _, trivial⟩
  reading := h.reading
  skipsLineFeed := h.skipsLineFeed
  fostering := h.fostering
  returnMode := h.returnMode
  pending := h.pending
  form := by
    -- A form that is opened is the innermost one.
    cases hform : name.isHtml "form" with
    | true => simp [Builder.entered, hform]
    | false => simp [Builder.entered, hform, h.form]
  formatting := by
    intro e he
    rcases List.mem_cons.1 (hsub.subset he) with rfl | he
    · exact hentry.imp_right fun ⟨tag, htag⟩ => ⟨_, List.mem_cons_self, tag, htag⟩
    · rcases h.formatting e he with hmark | ⟨o, ho, htag⟩
      · exact .inl hmark
      · exact .inr ⟨o, List.mem_cons_of_mem _ ho, htag⟩

/-- What was put into a new element might have been there when it was opened. -/
theorem left_entered (h : Still names b) (name : Name) (attributes : List Attribute)
    (items : List Item) (k : Nat) (f g f' : List Entry) :
    { (b.entered name attributes f).filled items k g with
        stack := b.stack, mode := b.mode, form := b.form, formatting := f' } =
      b.filled [.element b.nextId name attributes (Item.gather items)] k f' := by
  -- Filling the element and then leaving it is the same as adding it filled.
  have htree := @Item.appendEach_append_element b.nextId b.current.id name attributes items b.tree
    h.tree
  have hfilled : b.filled [.element b.nextId name attributes (Item.gather items)] k f' =
      { b with
        tree := Item.append b.current.id
          (.element b.nextId name attributes (Item.gather items)) b.tree
        nextId := k
        formatting := f' } := rfl
  rw [hfilled, ← htree]
  rfl

/-- Nothing is opened again, since what is remembered is open or behind a mark. -/
theorem reopenFormatting (h : Still names b) : b.reopenFormatting = b := by
  -- The list goes on only to what is closed, and its first entry is not.
  have hnone : b.formatting.takeWhile b.isClosed = [] := by
    cases hformatting : b.formatting with
    | nil => rfl
    | cons e es =>
        refine List.takeWhile_cons_of_neg ?_
        rcases h.formatting e (by rw [hformatting]; exact List.mem_cons_self) with
          rfl | ⟨o, ho, tag, rfl⟩
        · simp [Builder.isClosed]
        · have hopen : b.isOpen o.id = true :=
            List.any_eq_true.2 ⟨o, ho, beq_self_eq_true _⟩
          simp [Builder.isClosed, hopen]
  simp only [Builder.reopenFormatting, hnone, List.reverse_nil, List.foldl_nil, List.length_nil,
    List.drop_zero]

/-- An item goes into the innermost element. -/
theorem insertItem (h : Still names b) (i : Item) :
    b.insertItem i = b.filled [i] b.nextId b.formatting := by
  simp only [Builder.insertItem, Builder.placeFor, h.fostering, Bool.false_and,
    Bool.false_eq_true, if_false, Item.insert, Builder.filled, Item.appendEach, List.foldl_cons,
    List.foldl_nil]

/-- A text goes into the innermost element, unless it is empty. -/
theorem insertText (h : Still names b) {content : List Char} (hne : content ≠ []) :
    b.insertText content = b.filled [.text (String.ofList content)] b.nextId b.formatting := by
  have hempty : content.isEmpty = false := List.isEmpty_eq_false_iff.2 hne
  rw [Builder.insertText, hempty, if_neg Bool.false_ne_true, h.insertItem]

/-- An element that holds nothing goes into the innermost element. -/
theorem insertElement (h : Still names b) (name : Name) (attributes : List Attribute) :
    b.insertElement name attributes =
      b.filled [.element b.nextId name attributes []] (b.nextId + 1) b.formatting := by
  simp only [Builder.insertElement, h.insertItem, Builder.filled]

/-- An element goes into the innermost element and is opened. The mode and the form are
    still to be set. -/
theorem openNamed (h : Still names b) (name : Name) (attributes : List Attribute) :
    b.openNamed name attributes =
      { b.entered name attributes b.formatting with mode := b.mode, form := b.form } := by
  simp only [Builder.openNamed, Builder.insertElement, h.insertItem, Builder.filled,
    Item.appendEach, List.foldl_cons, List.foldl_nil, Builder.entered]

theorem openElement (h : Still names b) (tag : TagToken) :
    b.openElement tag = { b.entered (.html tag.name) (Foreign.attributesIn .html tag.attributes)
      b.formatting with mode := b.mode, form := b.form } :=
  h.openNamed _ _

/-- A token goes to the rules, since no line feed is left out. -/
theorem accept_eq (h : Still names b) {t : Token} (ht : t ≠ .doctype) :
    b.accept t = b.lookAgain b.looks t := by
  have hsame : { b with skipsLineFeed := false } = b := by rw [← h.skipsLineFeed]
  simp only [Builder.accept, h.skipsLineFeed, Bool.false_eq_true, if_false]
  rw [hsame]

/-- A token is looked at once, if that is enough. -/
theorem accept (h : Still names b) {t : Token} (ht : t ≠ .doctype) {c : Builder}
    (hlook : b.look t = .done c) : b.accept t = c := by
  have hlooks : b.looks = 4 * b.stack.length + 7 + 1 := rfl
  rw [h.accept_eq ht, hlooks, Builder.lookAgain, hlook]

end Still

/-- Inside graphics and formulas their rules apply. -/
theorem look_foreign {t : Token} (hforeign : b.isForeign t = true) : b.look t = b.inForeign t := by
  rw [Builder.look, hforeign, if_pos rfl]

/-- Elsewhere the rules of the mode apply. -/
theorem look_html {t : Token} (hhtml : b.isForeign t = false) : b.look t = b.inMode t := by
  rw [Builder.look, hhtml, if_neg Bool.false_ne_true]

namespace Receptive

theorem filled (h : Receptive names b) {items : List Item} {n : Nat} (hle : b.nextId ≤ n)
    (hitems : Item.everyAll (Item.Below n) items) {formatting : List Entry}
    (hsub : formatting.Sublist b.formatting) : Receptive names (b.filled items n formatting) where
  toStill := h.toStill.filled hle hitems hsub
  mode := h.mode

theorem filled_text (h : Receptive names b) (cs : List Char) :
    Receptive names (b.filled [.text (String.ofList cs)] b.nextId b.formatting) :=
  h.filled (Nat.le_refl _) (Item.everyAll_singleton.2 (Item.every_text _ _)) (List.Sublist.refl _)

end Receptive

/-- Whether a tag is read by rules of its own in some mode that otherwise reads by those of
    the body. -/
def Token.isPart : Token → Bool
  | .startTag tag => (upperParts ++ cells ++ ["tr"]).contains tag.name
  | .endTag name => (["body", "html", "table", "tr"] ++ upperParts ++ cells).contains name
  | _ => false

section Parts

variable {t : Token}

/-- In a caption most tokens are read by the rules of the body. -/
theorem inCaption_of_not_part (b : Builder) (h : t.isPart = false) :
    b.inCaption t = .done (b.acceptInBody t) := by
  cases t with
  | startTag tag =>
      rw [Token.isPart] at h
      simp only [Builder.inCaption, h, Bool.false_eq_true, if_false]
  | endTag name =>
      simp [Token.isPart, upperParts, cells] at h
      simp [Builder.inCaption, upperParts, cells, h]
  | _ => rfl

/-- So they are in a cell. -/
theorem inCell_of_not_part (b : Builder) (h : t.isPart = false) :
    b.inCell t = .done (b.acceptInBody t) := by
  cases t with
  | startTag tag =>
      rw [Token.isPart] at h
      simp only [Builder.inCell, h, Bool.false_eq_true, if_false]
  | endTag name =>
      simp [Token.isPart, upperParts, cells] at h
      simp [Builder.inCell, rowGroups, cells, h]
  | _ => rfl

end Parts

namespace Ready

/-- Where texts are put where they stand a ready reader does so. -/
theorem receptive (h : Ready names b) (htext : takesText (modeFor names) = true) :
    Receptive names b where
  toStill := h.toStill
  mode := h.mode ▸ htext

theorem filled (h : Ready names b) {items : List Item} {n : Nat} (hle : b.nextId ≤ n)
    (hitems : Item.everyAll (Item.Below n) items) {formatting : List Entry}
    (hsub : formatting.Sublist b.formatting) : Ready names (b.filled items n formatting) where
  toStill := h.toStill.filled hle hitems hsub
  mode := h.mode
  reset := h.reset

/-- The mode inside a new element is the one that the names call for. -/
theorem modeOf_entered (h : Ready names b) {name : Name}
    (htemplate : name.isIn ["template"] = false) (id : Nat) :
    modeOf b.templateModes (⟨id, name⟩ :: b.stack) = modeFor (name :: names) := by
  have hreset := h.reset
  rw [← h.names] at hreset ⊢
  exact modeOf_cons_eq_modeFor h.nonempty htemplate hreset id

theorem entered (h : Ready names b) {name : Name} (htemplate : name.isIn ["template"] = false)
    (attributes : List Attribute) {tag : TagToken} {formatting : List Entry}
    (hsub : formatting.Sublist (b.remembering name tag)) :
    Ready (name :: names) (b.entered name attributes formatting) := by
  rcases exists_remembering_sublist b name tag with ⟨entry, hentry, hremembering⟩
  exact
    { h.toStill.entered name attributes hentry (hsub.trans hremembering) with
      mode := h.modeOf_entered htemplate b.nextId
      reset := h.modeOf_entered htemplate b.nextId }

/-- Most elements do not change the mode. -/
theorem mode_entered (h : Ready names b) {name : Name} (hmodal : name.isIn modal = false)
    (id : Nat) : modeOf b.templateModes (⟨id, name⟩ :: b.stack) = b.mode := by
  -- A template calls for a mode, so the name is not its name.
  have htemplate : name.isIn ["template"] = false := by
    rw [Name.isIn, Bool.and_eq_false_iff, List.contains_eq_mem, decide_eq_false_iff_not] at hmodal ⊢
    exact hmodal.imp_right fun hmem hin => hmem (List.mem_cons.1 hin |>.elim
      (fun heq => heq ▸ by decide) fun hnil => absurd hnil List.not_mem_nil)
  rw [h.modeOf_entered htemplate, h.mode, modeFor_cons_of_not_modal h.names_ne_nil hmodal]

theorem filled_text (h : Ready names b) (cs : List Char) :
    Ready names (b.filled [.text (String.ofList cs)] b.nextId b.formatting) :=
  h.filled (Nat.le_refl _) (Item.everyAll_singleton.2 (Item.every_text _ _)) (List.Sublist.refl _)

/-- An element that changes neither the mode nor the form is opened as any other. -/
theorem openNamed (h : Ready names b) {name : Name} (hmodal : name.isIn modal = false)
    (hform : name.isHtml "form" = false) (attributes : List Attribute) :
    b.openNamed name attributes = b.entered name attributes b.formatting := by
  rw [h.toStill.openNamed]
  simp only [Builder.entered, h.mode_entered hmodal, hform, Bool.false_eq_true, if_false]

/-- In most modes the rules of the body apply outside graphics and formulas. -/
theorem look_flow (h : Ready names b) (hflow : isFlow (modeFor names) = true) {t : Token}
    (hhtml : b.isForeign t = false) (hpart : t.isPart = false) :
    b.look t = .done (b.acceptInBody t) := by
  rw [look_html hhtml, Builder.inMode, h.mode]
  -- Besides the body only captions and cells leave most tokens to its rules.
  cases hmode : modeFor names with
  | inBody => rfl
  | inCaption => exact inCaption_of_not_part b hpart
  | inCell => exact inCell_of_not_part b hpart
  | _ =>
      rw [hmode] at hflow
      exact absurd hflow Bool.false_ne_true

end Ready

end Html

end SoleRoot

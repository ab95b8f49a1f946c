import SoleRoot.Proofs.Html.Numbering
import SoleRoot.Proofs.Html.Pieces

/-!
# Elements Without Anything Inside

Elements that have an end tag when they are written, but nothing inside.

Some of them are not opened when they are read. They are put in their places, and the end
tag that follows is dropped, since no element of the name is open.

A template is opened and has modes of its own. Directly behind its start tag the reader is
in a mode in which texts and comments are put in their places. A mark on the list of
formatting elements keeps those outside from being opened again inside, and the end tag
takes everything back to the mark. What is inside a template is lost when the tree is
finished, so that one that comes from a reader has nothing inside.

## Main definitions

* `admitsHollow`: Whether such an element stays where it is.
* `Builder.enteredTemplate`: The state inside a new template.
* `Builder.templateAs`: The state in which a template is read in a mode.

## Theorems

* `Ready.look_startTemplate`: The start tag of a template opens it in any mode.
* `Ready.exists_look_endTemplate`: Its end tag closes it.
* `Ready.look_idle`, `Ready.look_endIdle`: An element that is not opened, and its end tag.
* `Ready.exists_grow_hollow`: An element without anything inside is put in its place.
-/

namespace SoleRoot

namespace Html

open Builder

/-- The names of elements that are not opened, although they are written with an end tag. -/
def idleNames : List String :=
  ["basefont", "bgsound", "keygen", "param"]

/-- Whether an element stays where it is if nothing is inside it, other than those that the
    rules of bodies and parts open. -/
def admitsHollow (names : List Name) (name : String) : Bool :=
  name == "template" && readsHtml (innermost names) ||
    idleNames.contains name && (innermost names).space == .html && isFlow (modeFor names) &&
      names.all (!·.isHtml name)

namespace Builder

/-- The state inside a new template of the innermost element. -/
def enteredTemplate (b : Builder) (attributes : List Attribute) : Builder :=
  { b.entered (.html "template") attributes (.mark :: b.formatting) with
    mode := .inTemplate
    templateModes := .inTemplate :: b.templateModes }

/-- The state in which the innermost template is read in a mode. -/
def templateAs (b : Builder) (mode : InsertionMode) : Builder :=
  { b with mode, templateModes := mode :: b.templateModes.drop 1 }

end Builder

section Templates

variable {names : List Name} {b : Builder} {tag : TagToken}

/-- In every mode the start tag of a template is read by the same rule. -/
theorem look_startTemplate (hmode : b.mode ≠ .inText ∧ b.mode ≠ .inTableText)
    (hhtml : b.isForeign (.startTag tag) = false) (hname : tag.name = "template") :
    b.look (.startTag tag) = .done (b.startTemplate tag) := by
  rcases tag with ⟨name, attributes, selfClosing⟩
  dsimp only at hname
  subst hname
  rw [look_html hhtml, Builder.inMode]
  cases hm : b.mode with
  | inText => exact absurd hm hmode.1
  | inTableText => exact absurd hm hmode.2
  | _ => rfl

/-- The start tag of a template opens it. -/
theorem Ready.look_startTemplate (h : Ready names b) (hreads : readsHtml b.current.name = true)
    (hname : tag.name = "template") :
    b.look (.startTag tag) =
      .done (b.enteredTemplate (Foreign.attributesIn .html tag.attributes)) := by
  have hhtml : b.isForeign (.startTag tag) = false :=
    isForeign_of_readsHtml hreads rfl fun _ => by simp [Token.starts, hname, glyphs]
  have hmode := modeFor_ne names
  rw [← h.mode] at hmode
  have hmarked : Still names { b.markFormatting with
      mode := .inTemplate
      templateModes := .inTemplate :: b.templateModes } :=
    { h.toStill with formatting := List.forall_mem_cons.2 ⟨.inl rfl, h.formatting⟩ }
  rw [Html.look_startTemplate hmode hhtml hname, Builder.startTemplate, hmarked.openElement, hname]
  rfl

/-- Inside a new template texts and comments are put in their places. -/
theorem Ready.enteredTemplate (h : Ready names b) (attributes : List Attribute) :
    Receptive (.html "template" :: names) (b.enteredTemplate attributes) where
  toStill :=
    -- The mark stands for the formatting elements outside, which are not opened again.
    { h.toStill.entered (.html "template") attributes (.inl rfl)
        (List.Sublist.refl (.mark :: b.formatting)) with }
  mode := rfl

/-- The end tag of a template closes it, by whatever rules it was read. -/
theorem Ready.exists_look_endTemplate (h : Ready names b) {mode : InsertionMode}
    (hmode : mode = .inBody ∨ mode = .inTemplate) (attributes : List Attribute)
    (items : List Item) (k : Nat) {g : List Entry} (hg : g.Sublist (.mark :: b.formatting)) :
    ∃ f, f.Sublist b.formatting ∧
      (((b.enteredTemplate attributes).templateAs mode).filled items k g).look
          (.endTag "template") =
        .done (b.filled [.element b.nextId (.html "template") attributes (Item.gather items)]
          k f) := by
  refine ⟨_, clear_sublist hg, ?_⟩
  have hstack : (((b.enteredTemplate attributes).templateAs mode).filled items k g).stack =
      ⟨b.nextId, .html "template"⟩ :: b.stack := rfl
  have hspace : (((b.enteredTemplate attributes).templateAs mode).filled items k
      g).current.name.space = .html := rfl
  have hopen : (((b.enteredTemplate attributes).templateAs mode).filled items k g).inTemplate =
      true := by
    rw [Builder.inTemplate, hstack]
    rfl
  have hlook : (((b.enteredTemplate attributes).templateAs mode).filled items k g).look
      (.endTag "template") =
        .done (((b.enteredTemplate attributes).templateAs mode).filled items k g).endTemplate := by
    rw [look_html (isForeign_of_html hspace _)]
    rcases hmode with rfl | rfl
    · rfl
    · rfl
  -- Behind the template the mode is found again from the elements around.
  have hmodes : modeOf b.templateModes b.stack = b.mode := h.reset.trans h.mode.symm
  rw [hlook, Builder.endTemplate, hopen, if_pos rfl, close_of_stack hstack rfl (by decide),
    ← h.left_entered (.html "template") attributes items k (.mark :: b.formatting) g]
  simp only [Builder.resetMode, Builder.clearFormatting, Builder.filled, Builder.templateAs,
    Builder.enteredTemplate, Builder.entered, List.drop_succ_cons, List.drop_zero, hmodes]
  rfl

end Templates

section Idle

variable {names : List Name} {b : Builder} {name : String} {tag : TagToken}

/-- An element of a name is not taken away if none is open. -/
theorem stackWithout?_eq_none {os : List Opened} (h : ∀ o ∈ os, o.name.isHtml name = false) :
    stackWithout? name os = none := by
  induction os with
  | nil => rfl
  | cons o os ih =>
      rcases List.forall_mem_cons.1 h with ⟨ho, hos⟩
      rw [stackWithout?, ho, if_neg Bool.false_ne_true, ih hos, ite_self]

/-- In a body the tag of such an element puts it in its place, some of them after formatting
elements have been opened again. -/
theorem startInBody_idle (b : Builder) (h : tag.name ∈ idleNames) :
    b.startInBody tag = b.reopenFormatting.insertVoid tag ∨
      b.startInBody tag = b.insertVoid tag := by
  rcases tag with ⟨name, attributes, selfClosing⟩
  simp only [idleNames, List.mem_cons, List.not_mem_nil, or_false] at h
  rcases h with rfl | rfl | rfl | rfl
  case inr.inr.inl => exact .inl rfl
  all_goals exact .inr rfl

/-- An element that is not opened is put in its place. -/
theorem Ready.look_idle (h : Ready names b) (hmem : tag.name ∈ idleNames)
    (hspace : b.current.name.space = .html) (hflow : isFlow (modeFor names) = true) :
    b.look (.startTag tag) =
      .done (b.filled [.element b.nextId (.html tag.name)
        (Foreign.attributesIn .html tag.attributes) []] (b.nextId + 1) b.formatting) := by
  have hall : ∀ n ∈ idleNames, n ∉ ["body", "html", "tr"] ++ upperParts ++ cells := by decide
  have hstart : b.startInBody tag = b.insertVoid tag := by
    rcases startInBody_idle b hmem with hstart | hstart
    · rw [hstart, h.reopenFormatting]
    · exact hstart
  rw [h.look_flow hflow (isForeign_of_html hspace _) (isPart_startTag (hall _ hmem)),
    Builder.acceptInBody, hstart, Builder.insertVoid, h.insertElement]

/-- The end tag of an element that is not open does nothing. -/
theorem Ready.look_endIdle (h : Ready names b) (hmem : name ∈ idleNames)
    (hspace : b.current.name.space = .html) (hflow : isFlow (modeFor names) = true)
    (hclosed : names.all (!·.isHtml name) = true) :
    b.look (.endTag name) = .done b := by
  have hall : ∀ n ∈ idleNames, n ∉ ["body", "html", "tr"] ++ upperParts ++ cells ∧ n ≠ "table" := by
    decide
  rcases hall _ hmem with ⟨hpart, htable⟩
  have hother : b.endInBody name = b.closeOther name := by
    simp only [idleNames, List.mem_cons, List.not_mem_nil, or_false] at hmem
    rcases hmem with rfl | rfl | rfl | rfl
    all_goals rfl
  -- Only an open element of the name could be closed by the end tag.
  have hnone : stackWithout? name b.stack = none := by
    refine stackWithout?_eq_none fun o ho => ?_
    rw [← h.names, List.all_map, List.all_eq_true] at hclosed
    simpa using hclosed o ho
  rw [h.look_flow hflow (isForeign_of_html hspace _) (isPart_endTag hpart htable),
    Builder.acceptInBody, hother, Builder.closeOther, hnone, Option.getD_none]

end Idle

section Hollow

variable {names : List Name} {b : Builder} {t : Tag}

/-- An element without anything inside is a template, or is not opened and none of its name is open.
-/
theorem admitsHollow_cases {name : String} (h : admitsHollow names name = true) :
    (name = "template" ∧ readsHtml (innermost names) = true) ∨
      (name ∈ idleNames ∧ (innermost names).space = .html ∧ isFlow (modeFor names) = true ∧
        names.all (!·.isHtml name) = true) := by
  simp only [admitsHollow, Bool.or_eq_true, Bool.and_eq_true, beq_iff_eq,
    List.contains_iff_mem] at h
  rcases h with htemplate | ⟨⟨⟨hmem, hspace⟩, hflow⟩, hclosed⟩
  · exact .inl htemplate
  · exact .inr ⟨hmem, hspace, hflow, hclosed⟩

/-- It is an element of HTML with the name that it is written with, and not void. -/
theorem admitsHollow_spec {name : String} (h : admitsHollow names name = true) :
    lowered name = name ∧ voidNames.contains name = false ∧
      childName (innermost names) name = .html name := by
  have hall : ∀ n ∈ "template" :: idleNames, lowered n = n ∧ voidNames.contains n = false ∧
      n ≠ "svg" ∧ n ≠ "math" := by
    decide +kernel
  have hmem : name ∈ "template" :: idleNames ∧ readsHtml (innermost names) = true := by
    rcases admitsHollow_cases h with ⟨rfl, hreads⟩ | ⟨hmem, hspace, _⟩
    · exact ⟨List.mem_cons_self, hreads⟩
    · exact ⟨List.mem_cons_of_mem _ hmem, by simp [readsHtml, hspace]⟩
  rcases hall _ hmem.1 with ⟨hlowered, hvoid, hsvg, hmath⟩
  refine ⟨hlowered, hvoid, ?_⟩
  rw [childName, if_pos hmem.2, if_neg hsvg, if_neg hmath]

/-- An element without anything inside is put in its place. -/
theorem Ready.exists_grow_hollow (h : Ready names b) (hwritable : Writable t)
    (hadmits : admitsHollow names t.name = true) (raw : Bool) :
    ∃ f, f.Sublist b.formatting ∧ ∀ rest, grow b (write raw (.element t []) ++ rest) =
      grow (b.filled [(number b.current.name b.nextId (.element t [])).1]
        (number b.current.name b.nextId (.element t [])).2 f) rest := by
  rcases admitsHollow_spec hadmits with ⟨hlowered, hvoid, hchild⟩
  rw [h.innermost_names] at hchild
  have hname : (tokenOf t).name = t.name := hlowered
  have hwritten (rest : List Char) : write raw (.element t []) ++ rest =
      startTag t ++ '>' :: (endTag t ++ rest) := by
    rw [write, if_neg (by rw [hvoid]; decide), writeAll]
    simp only [List.append_assoc, List.cons_append, List.nil_append]
  rw [number, numberAll, hchild]
  -- A template is opened and closed at once; the other elements are in place before their end tags
  -- come.
  rcases admitsHollow_cases hadmits with ⟨htemplate, hreads⟩ | ⟨hmem, hspace, hflow, hclosed⟩
  · rw [h.innermost_names] at hreads
    have hstart := h.look_startTemplate hreads (hname.trans htemplate)
    have hinside := h.enteredTemplate (Foreign.attributesIn .html (tokenOf t).attributes)
    rcases h.exists_look_endTemplate (.inr rfl)
      (Foreign.attributesIn .html (tokenOf t).attributes) [] (b.nextId + 1)
      (List.Sublist.refl (.mark :: b.formatting)) with ⟨f, hf, hend⟩
    refine ⟨f, hf, fun rest => ?_⟩
    rw [hwritten, startTag_append, h.grow_piece (next_startTag hwritable _ _),
      h.accept (by simp) hstart, endTag_append, hinside.grow_piece (next_endTag hwritable.name _ _),
      hlowered, htemplate, hinside.accept (by simp) hend]
    rfl
  · rw [h.innermost_names] at hspace
    have hstart := h.look_idle (hname.symm ▸ hmem) hspace hflow
    rw [hname] at hstart
    have hinside := h.filled_number (.element t []) (List.Sublist.refl _)
    rw [number, numberAll, hchild] at hinside
    have hend := hinside.look_endIdle hmem hspace hflow hclosed
    refine ⟨b.formatting, List.Sublist.refl _, fun rest => ?_⟩
    rw [hwritten, startTag_append, h.grow_piece (next_startTag hwritable _ _),
      h.accept (by simp) hstart, endTag_append]
    refine (hinside.grow_piece (next_endTag hwritable.name _ _)).trans ?_
    rw [hlowered, hinside.accept (by simp) hend]

end Hollow

end Html

end SoleRoot

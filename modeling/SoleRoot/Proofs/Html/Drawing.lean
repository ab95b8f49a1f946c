import SoleRoot.Proofs.Faithful.Rereading
import SoleRoot.Proofs.Html.Manner

/-!
# Reading Written Drawings

What a reader of HTML makes of graphics that were written in some manner.

Inside graphics every start tag opens an element, one of a name that holds nothing in
HTML as well. Such an element has no end tag, so it stays open until the end tag of
its parent comes, which closes it and all others that were left open with it. A state
inside an element is therefore described with two kinds of open elements: those
without end tag, and around them the one whose end tag is to come. `Inside` is this
description, and what is written of the nodes inside an element, with its end tag,
leads from such a state to the one outside.

The induction is over the list of nodes. An element without end tag changes the place
where the rest of the list is put, but not the end tag that is to come. Any other
element begins a description of its own, which ends with its end tag.

## Main definitions

* `Drawn`: Elements without attributes and texts, as drawings have them.
* `Inside`: What is open inside an element of a drawing.

## Theorems

* `foreignEnd_append`: An end tag closes the elements that were left open.
* `Inside.grow_writeAll`: The nodes inside an element are put in their places.
-/

namespace SoleRoot

namespace Html

open Builder Reference

/-- The names of the elements inside a drawing. -/
def drawingNames : List String :=
  ["g", "path", "text", "style", "link"]

/-- Whether the nodes of a list are elements of a drawing without attributes, nested in any
    way, and texts between them. -/
inductive Drawn : List Node → Prop where
  | nil : Drawn []
  | text {content : String} {ns : List Node} (hne : content ≠ "")
    (hnull : '\x00' ∉ content.toList) (hreturn : '\r' ∉ content.toList)
    (hapart : ∀ n ∈ ns.head?, Faithful.isTextNode n = false) (hrest : Drawn ns) :
    Drawn (.text content :: ns)
  | element {name : String} {children ns : List Node} (hname : name ∈ drawingNames)
    (hchildren : Drawn children) (hrest : Drawn ns) :
    Drawn (.element { name } children :: ns)

/-- Whether a name is that of an element of a drawing. -/
def IsGraphics (n : Name) : Prop :=
  n.space = .svg ∧ n.localName ∈ "svg" :: drawingNames

section Names

theorem drawingNames_spec {name : String} (h : name ∈ "svg" :: drawingNames) :
    lowered name = name ∧ name.toLower = name ∧ isTagName name.toList = true ∧
      admitsInForeign .svg name = true ∧ breaksOut (.endTag name) = false ∧
      readsHtml ⟨.svg, name⟩ = false ∧ skipping.contains name = false := by
  revert name
  decide +kernel

theorem IsGraphics.readsHtml {n : Name} (h : IsGraphics n) : readsHtml n = false := by
  rcases n with ⟨space, localName⟩
  rcases h with ⟨rfl, hname⟩
  exact (drawingNames_spec hname).2.2.2.2.2.1

variable {parent : Name} {name : String}

theorem IsGraphics.childName (h : IsGraphics parent) (name : String) :
    childName parent name = ⟨.svg, name⟩ := by
  rw [Html.childName, h.readsHtml, if_neg Bool.false_ne_true, h.1]

theorem isGraphics_child (hname : name ∈ drawingNames) : IsGraphics ⟨.svg, name⟩ :=
  ⟨rfl, List.mem_cons_of_mem _ hname⟩

/-- Where the innermost element is of a drawing, any other may stand. -/
theorem IsGraphics.admits {names : List Name} (h : IsGraphics (innermost names))
    (hname : name ∈ drawingNames) : admits names name = true := by
  have hannotated : (innermost names == ⟨.mathml, "annotation-xml"⟩) = false := by
    refine beq_eq_false_iff_ne.2 fun heq => ?_
    have hspace := h.1
    rw [heq] at hspace
    exact Namespace.noConfusion hspace
  rw [Html.admits, h.readsHtml, if_neg Bool.false_ne_true, h.1,
    (drawingNames_spec (List.mem_cons_of_mem _ hname)).2.2.2.1, hannotated]
  rfl

theorem writable_of_mem (hname : name ∈ drawingNames) : Writable { name } :=
  ⟨(drawingNames_spec (List.mem_cons_of_mem _ hname)).2.2.1, by simp⟩

/-- An element has no attributes, so only its name is left of its tag. -/
theorem IsGraphics.number_element (h : IsGraphics parent) (name : String) (k : Nat)
    (children : List Node) :
    number parent k (.element { name } children) =
      (.element k ⟨.svg, name⟩ [] (Item.gather (numberAll ⟨.svg, name⟩ (k + 1) children).1),
        (numberAll ⟨.svg, name⟩ (k + 1) children).2) := by
  rw [number, h.childName]
  rfl

end Names

/-- What is open inside an element of a drawing: elements without end tag, the element
    `parent` around them, and the elements `os` around that. -/
structure Inside (m : Manner) (parent : Opened) (os : List Opened) (b : Builder) : Prop where
  ready : Ready (b.stack.map (·.name)) b
  mode : b.mode = .inBody
  formatting : b.formatting = []
  outside : os ≠ []
  graphics : IsGraphics parent.name
  ended : m.void.contains parent.name.localName = false
  stack : ∃ opens, b.stack = opens ++ parent :: os ∧
    ∀ o ∈ opens, IsGraphics o.name ∧ m.void.contains o.name.localName = true

namespace Builder

/-- The state with the items of nodes more in the innermost element. -/
def filledWith (b : Builder) (ns : List Node) : Builder :=
  b.filled (numberAll b.current.name b.nextId ns).1 (numberAll b.current.name b.nextId ns).2 []

/-- The state in which only the elements `outer` are open. -/
def leftFor (b : Builder) (outer : List Opened) : Builder :=
  { b with stack := outer }

theorem filledWith_cons (b : Builder) (n : Node) (ns : List Node) :
    (b.filledWith [n]).filledWith ns = b.filledWith (n :: ns) := by
  simp only [filledWith, numberAll]
  rw [filled_filled]
  rfl

end Builder

section Closing

theorem foreignEnd_cons (name : String) (innermost : Bool) (o : Opened) {os : List Opened}
    (hos : os ≠ []) :
    foreignEnd name innermost (o :: os) =
      if !innermost && o.name.space == .html then .html
      else if o.name.localName.toLower == name then .closed os
      else foreignEnd name false os := by
  cases os with
  | nil => exact absurd rfl hos
  | cons o' os =>
      rw [foreignEnd]
      exact hos

/-- An end tag closes its element and those that were left open inside it. -/
theorem foreignEnd_append {name : String} {opens os : List Opened} {parent : Opened}
    (hopens : ∀ o ∈ opens, o.name.space = .svg ∧ o.name.localName.toLower ≠ name)
    (hspace : parent.name.space = .svg) (hname : parent.name.localName.toLower = name)
    (hos : os ≠ []) (innermost : Bool) :
    foreignEnd name innermost (opens ++ parent :: os) = .closed os := by
  induction opens generalizing innermost with
  | nil =>
      rw [List.nil_append, foreignEnd_cons _ _ _ hos, hspace, hname, if_neg (by simp),
        if_pos (beq_self_eq_true _)]
  | cons o opens ih =>
      rcases List.forall_mem_cons.1 hopens with ⟨⟨ho, hne⟩, hopens⟩
      rw [List.cons_append, foreignEnd_cons _ _ _ (by simp), ho, if_neg (by simp),
        if_neg (by simpa using hne)]
      exact ih hopens false

end Closing

/-- The start tag of an element of graphics opens it, and nothing is remembered of it. -/
theorem Ready.grow_startTag_graphics {names : List Name} {b : Builder} {t : Tag}
    (h : Ready names b) (hwritable : Writable t) (hadmits : admits names t.name = true)
    (hchild : childName b.current.name t.name = ⟨.svg, t.name⟩)
    (hskips : skipping.contains t.name = false) (hformatting : b.formatting = [])
    (rest : List Char) :
    grow b (startTag t ++ '>' :: rest) =
      grow (b.entered ⟨.svg, t.name⟩ (Foreign.attributesIn .svg (tokenOf t).attributes) [])
        rest := by
  rcases h.exists_begun hadmits with ⟨f, hf, hlook⟩
  rw [hchild, remembering_of_plain rfl rfl, hformatting, List.sublist_nil] at hf
  rw [startTag_append, h.grow_piece (next_startTag hwritable _ rest), h.accept (by simp) hlook,
    Builder.begun, hchild, hf, hskips, ← h.skipsLineFeed]
  rfl

namespace Inside

variable {m : Manner} {parent : Opened} {os : List Opened} {b : Builder}
  {name : String}

theorem current (h : Inside m parent os b) : IsGraphics b.current.name := by
  rcases h.stack with ⟨opens, hstack, hopens⟩
  cases opens with
  | nil =>
      rw [Builder.current, hstack]
      exact h.graphics
  | cons o opens =>
      rw [Builder.current, hstack]
      exact (hopens o List.mem_cons_self).1

theorem filledWith (h : Inside m parent os b) (ns : List Node) :
    Inside m parent os (b.filledWith ns) where
  ready := h.ready.filled_numberAll ns (List.nil_sublist _)
  mode := h.mode
  formatting := rfl
  outside := h.outside
  graphics := h.graphics
  ended := h.ended
  stack := h.stack

theorem ready_entered (h : Inside m parent os b) (name : String) :
    Ready ((b.entered ⟨.svg, name⟩ [] []).stack.map (·.name))
      (b.entered ⟨.svg, name⟩ [] []) :=
  h.ready.entered rfl [] (List.nil_sublist (b.remembering _ default))

/-- Graphics do not change the mode. -/
theorem mode_entered (h : Inside m parent os b) (name : String) :
    (b.entered ⟨.svg, name⟩ [] []).mode = b.mode :=
  h.ready.mode_entered rfl b.nextId

theorem receptive (h : Inside m parent os b) : Receptive (b.stack.map (·.name)) b where
  toStill := h.ready.toStill
  mode := by
    rw [h.mode]
    rfl

/-- Inside an element with an end tag. -/
theorem entered (h : Inside m parent os b) (hname : name ∈ drawingNames)
    (hended : m.void.contains name = false) :
    Inside m ⟨b.nextId, ⟨.svg, name⟩⟩ b.stack (b.entered ⟨.svg, name⟩ [] []) where
  ready := h.ready_entered name
  mode := (h.mode_entered name).trans h.mode
  formatting := rfl
  outside := h.ready.nonempty
  graphics := isGraphics_child hname
  ended := hended
  stack := ⟨[], rfl, by simp⟩

/-- Inside an element without one. -/
theorem entered_void (h : Inside m parent os b) (hname : name ∈ drawingNames)
    (hvoid : m.void.contains name = true) :
    Inside m parent os (b.entered ⟨.svg, name⟩ [] []) where
  ready := h.ready_entered name
  mode := (h.mode_entered name).trans h.mode
  formatting := rfl
  outside := h.outside
  graphics := h.graphics
  ended := h.ended
  stack := by
    rcases h.stack with ⟨opens, hstack, hopens⟩
    refine ⟨⟨b.nextId, ⟨.svg, name⟩⟩ :: opens, ?_,
      List.forall_mem_cons.2 ⟨⟨isGraphics_child hname, hvoid⟩, hopens⟩⟩
    rw [Builder.entered, hstack]
    rfl

/-- A start tag opens an element. -/
theorem grow_startTag (h : Inside m parent os b) (hname : name ∈ drawingNames)
    (rest : List Char) :
    grow b (startTag { name } ++ '>' :: rest) = grow (b.entered ⟨.svg, name⟩ [] []) rest := by
  have hcurrent := h.current
  rw [← h.ready.innermost_names] at hcurrent
  exact h.ready.grow_startTag_graphics (writable_of_mem hname) (hcurrent.admits hname)
    (h.current.childName name)
    (drawingNames_spec (List.mem_cons_of_mem _ hname)).2.2.2.2.2.2 h.formatting rest

/-- The end tag that is to come closes all that is open inside. -/
theorem grow_endTag (h : Inside m parent os b) (rest : List Char) :
    grow b (endTag { name := parent.name.localName } ++ rest) =
      grow (b.leftFor os) rest := by
  rcases drawingNames_spec h.graphics.2 with ⟨hlowered, htoLower, htagName, _, hinside, _, _⟩
  have hend : foreignEnd parent.name.localName true b.stack = .closed os := by
    rcases h.stack with ⟨opens, hstack, hopens⟩
    rw [hstack]
    refine foreignEnd_append (fun o ho => ?_) h.graphics.1 htoLower h.outside true
    rcases hopens o ho with ⟨hgraphics, hvoid⟩
    refine ⟨hgraphics.1, fun hname => ?_⟩
    -- One of the two has an end tag and the other has none.
    rw [(drawingNames_spec hgraphics.2).2.1] at hname
    rw [hname, h.ended] at hvoid
    exact Bool.false_ne_true hvoid
  have haccept : b.accept (.endTag parent.name.localName) = b.leftFor os := by
    have hspace := space_ne_of_not_readsHtml h.current.readsHtml
    refine h.ready.accept (by simp) ?_
    rw [look_foreign (isForeign_of_space hspace (.inr rfl) fun _ => rfl), Builder.inForeign,
      hinside, if_neg Bool.false_ne_true]
    simp only [hend]
    rfl
  have hpiece := next_endTag (t := { name := parent.name.localName }) htagName
    b.currentIsForeign rest
  rw [hlowered] at hpiece
  rw [endTag_append, h.ready.grow_piece hpiece, haccept]

theorem filledWith_nil (h : Inside m parent os b) : b.filledWith [] = b := by
  rw [Builder.filledWith, numberAll, ← h.formatting]
  rfl

/-- An element that is filled after it was opened might have been full when it was put
    in its place. -/
theorem filledWith_entered (h : Inside m parent os b) (name : String) (ns : List Node)
    (outer : List Opened) :
    ((b.entered ⟨.svg, name⟩ [] []).filledWith ns).leftFor outer =
      (b.filledWith [.element { name } ns]).leftFor outer := by
  -- The numbers of what is inside come behind that of the element.
  have hone : b.filledWith [.element { name } ns] = b.filled
      [.element b.nextId ⟨.svg, name⟩ []
        (Item.gather (numberAll ⟨.svg, name⟩ (b.nextId + 1) ns).1)]
      (numberAll ⟨.svg, name⟩ (b.nextId + 1) ns).2 [] := by
    rw [Builder.filledWith, numberAll, numberAll, h.current.number_element]
  have hfilled := congrArg (Builder.leftFor · outer) (h.ready.left_entered ⟨.svg, name⟩ []
    (numberAll ⟨.svg, name⟩ (b.nextId + 1) ns).1
    (numberAll ⟨.svg, name⟩ (b.nextId + 1) ns).2
    [] [] [])
  rw [hone]
  rw [← h.mode_entered name] at hfilled
  exact hfilled

end Inside

section Nodes

variable {m : Manner}

/-- Behind a text stands a tag. -/
theorem exists_less (m : Manner) (raw : Bool) {ns : List Node} (hns : Drawn ns)
    (hapart : ∀ n ∈ ns.head?, Faithful.isTextNode n = false) (tag : Tag) (rest : List Char) :
    ∃ cs, m.writeAll raw ns ++ (endTag tag ++ rest) = '<' :: cs := by
  cases hns with
  | nil => exact ⟨_, by rw [Manner.writeAll, List.nil_append, endTag_append]⟩
  | text => exact absurd (hapart _ rfl) Bool.true_eq_false_eq_False
  | element =>
      rw [Manner.writeAll, Manner.write]
      split
      · exact ⟨_, by simp only [startTag, List.append_assoc, List.cons_append]; rfl⟩
      · exact ⟨_, by simp only [startTag, List.append_assoc, List.cons_append]; rfl⟩

/-- A text is put in its place, decoded if it was written as it is. -/
theorem Inside.grow_text {parent : Opened} {os : List Opened} {b : Builder}
    (h : Inside m parent os b) {raw : Bool} {content : String} (hne : content ≠ "")
    (hnull : '\x00' ∉ content.toList) (hreturn : '\r' ∉ content.toList)
    (hquiet : m.quiet raw (.text content) = true) (rest : List Char) :
    grow b (m.write raw (.text content) ++ '<' :: rest) =
      grow (b.filledWith [m.settle raw (.text content)]) ('<' :: rest) := by
  have hone (content : String) :
      b.filledWith [.text content] = b.filled [.text content] b.nextId b.formatting := by
    rw [Builder.filledWith, numberAll, numberAll, number, h.formatting]
  rw [Manner.settle, hone]
  cases raw with
  | false =>
      have hnil : content.toList ≠ [] := fun hnil => hne (String.toList_eq_nil_iff.1 hnil)
      exact h.receptive.grow_text hnil (isSteady_of_not_mem hnull hreturn) rfl ('<' :: rest)
  | true =>
      have hnil : content.toList ≠ [] := fun hnil => hne (String.toList_eq_nil_iff.1 hnil)
      rw [Manner.quiet, Bool.not_true, Bool.false_or, decide_eq_true_eq] at hquiet
      exact h.receptive.grow_quiet hquiet hnull hnil rest

/-- What is written of the nodes inside an element, with its end tag, puts them in their
    places and closes the element. -/
theorem Inside.grow_writeAll {ns : List Node} (hns : Drawn ns) {parent : Opened}
    {os : List Opened} {b : Builder} (h : Inside m parent os b) {raw : Bool}
    (hquiet : m.quietAll raw ns = true) (rest : List Char) :
    grow b (m.writeAll raw ns ++ (endTag { name := parent.name.localName } ++ rest)) =
      grow ((b.filledWith (m.settleAll raw ns)).leftFor os) rest := by
  -- Whatever is read first, the end tag that is to come stays the same, except inside an
  -- element with an end tag of its own.
  induction hns generalizing parent os b raw rest with
  | nil =>
      rw [Manner.writeAll, List.nil_append, h.grow_endTag, Manner.settleAll, h.filledWith_nil]
  | @text content ns hne hnull hreturn hapart hns ih =>
      rw [Manner.quietAll, Bool.and_eq_true] at hquiet
      rcases exists_less m raw hns hapart { name := parent.name.localName } rest with ⟨cs, hcs⟩
      rw [Manner.writeAll, List.append_assoc, hcs, h.grow_text hne hnull hreturn hquiet.1, ← hcs,
        ih (h.filledWith _) hquiet.2, filledWith_cons, Manner.settleAll_text]
  | @element name children ns hname _ _ ihChildren ih =>
      rw [Manner.quietAll, Manner.quiet, Bool.and_eq_true, Bool.or_eq_true] at hquiet
      rw [Manner.writeAll, Manner.write, Manner.settleAll_element]
      split
      · -- The element is left open, and what stands behind it is put inside it.
        rename_i hvoid
        simp only [List.append_assoc, List.cons_append, List.nil_append]
        rw [h.grow_startTag hname, ih (h.entered_void hname hvoid) hquiet.2,
          h.filledWith_entered]
      · rename_i hended
        rw [Bool.not_eq_true] at hended
        -- What is inside has an end tag of its own, and behind it all is as before.
        have hinside := ihChildren (h.entered hname hended)
          (hquiet.1.resolve_left (by rw [hended]; exact Bool.false_ne_true))
        have hclosed (n : Node) : (b.filledWith [n]).leftFor b.stack = b.filledWith [n] := rfl
        simp only [List.append_assoc, List.cons_append]
        rw [h.grow_startTag hname, hinside, h.filledWith_entered, hclosed,
          ih (h.filledWith _) hquiet.2, filledWith_cons]

end Nodes

end Html

end SoleRoot

import SoleRoot.Markup.Document
import SoleRoot.Proofs.Html.Drawing

/-!
# Drawings Come Back

Which drawings are read again as they were written.

A drawing is an element of graphics with elements of a few names inside, nested in any
way, and texts. Two of the names are treated by the printer as HTML has them: a link is
written without its end tag and what is inside it, and the text of a style sheet without
escapes. Inside graphics, though, both are elements like any other.

If a text of a style sheet holds the start of a tag, then that tag is read. If it does
not, what is read can be told from the drawing. References in the texts of style sheets
are decoded, and a link takes over all that stands behind it. So a drawing comes back
exactly if there are no such references and every link is empty and the last of its
siblings. When it is spelled out, with both tags for every element and escapes in every
text, it comes back in any case, if its own attributes do.

## Main definitions

* `Drawing`: A drawing.

## Theorems

* `read_write`: What is read of a drawing that was written in some manner.
* `parse_serialize_drawing`: What is read of a drawing that the printer has written.
* `parse_serialize_drawing_ne`: A drawing that does not come back.
-/

namespace SoleRoot

open Html

/-- Whether an element of a tag with nodes inside is a drawing. -/
structure Drawing (tag : Tag) (ns : List Node) : Prop where
  name : tag.name = "svg"
  writable : Writable tag
  nodes : Drawn ns

section Items

variable {m : Manner} {ns : List Node}

/-- Behind a text no item is a text. -/
theorem isText_head?_settleAll (hns : Drawn ns)
    (hapart : ∀ n ∈ ns.head?, Faithful.isTextNode n = false) (parent : Name) (k : Nat)
    (raw : Bool) :
    ∀ i ∈ (numberAll parent k (m.settleAll raw ns)).1.head?, i.isText = false := by
  cases hns with
  | nil => simp [Manner.settleAll, numberAll]
  | text => exact absurd (hapart _ rfl) Bool.true_eq_false_eq_False
  | element =>
      -- Whether it takes over what stands behind it or not, an element comes first.
      rw [Manner.settleAll_element]
      split
      · rw [numberAll, number, List.head?_cons]
        exact fun i hi => Option.some.inj hi ▸ rfl
      · rw [numberAll, number, List.head?_cons]
        exact fun i hi => Option.some.inj hi ▸ rfl

/-- The texts of the nodes that are read are not joined. -/
theorem gather_settleAll (hns : Drawn ns) (parent : Name) (k : Nat) (raw : Bool) :
    Item.gather (numberAll parent k (m.settleAll raw ns)).1 =
      (numberAll parent k (m.settleAll raw ns)).1 := by
  -- Only a text directly behind another one would join it.
  have hchain : (numberAll parent k (m.settleAll raw ns)).1.IsChain
      fun i j => i.isText = true → j.isText = false := by
    induction hns generalizing k raw with
    | nil =>
        rw [Manner.settleAll, numberAll]
        exact List.isChain_nil
    | text _ _ _ hapart hns ih =>
        rw [Manner.settleAll_text, numberAll]
        exact List.isChain_cons.2
          ⟨fun j hj _ => isText_head?_settleAll hns hapart parent _ raw j hj, ih _ raw⟩
    | element _ _ _ _ ih =>
        rw [Manner.settleAll_element]
        split
        · rw [numberAll, numberAll]
          exact List.isChain_singleton _
        · rw [numberAll, number]
          exact List.isChain_cons.2 ⟨fun _ _ helement => Bool.noConfusion helement, ih _ raw⟩
  exact Item.foldl_attach hchain

theorem toNode_graphics (k : Nat) (name : String) (items : List Item) :
    Item.toNode (.element k ⟨.svg, name⟩ [] items) =
      .element { name } (Item.toNodes items) := by
  have hattributes : Item.finishAttributes [] = [] := by
    rw [Item.finishAttributes, List.mergeSort_nil, List.map_nil]
  rw [Item.toNode, hattributes]
  rfl

/-- The items of the nodes that are read are these nodes again. -/
theorem toNodes_settleAll (hns : Drawn ns) {parent : Name} (hparent : IsGraphics parent)
    (k : Nat) (raw : Bool) :
    Item.toNodes (numberAll parent k (m.settleAll raw ns)).1 = m.settleAll raw ns := by
  induction hns generalizing parent k raw with
  | nil => rw [Manner.settleAll, numberAll, Item.toNodes]
  | text _ _ _ _ _ ih =>
      rw [Manner.settleAll_text, Manner.settle, numberAll, Item.toNodes, ih hparent, number,
        Item.toNode]
  | @element name children ns hname hchildren hns ihChildren ih =>
      have hinside := isGraphics_child hname
      rw [Manner.settleAll_element]
      split
      · -- The nodes behind the element are its content now.
        rw [numberAll, numberAll, hparent.number_element, Item.toNodes, Item.toNodes,
          toNode_graphics, gather_settleAll hns, ih hinside]
      · rw [numberAll, Item.toNodes, ih hparent, hparent.number_element, toNode_graphics,
          gather_settleAll hchildren, ihChildren hinside]

end Items

section Lines

variable {m : Manner} {raw : Bool} {ns : List Node}

/-- No carriage return is written of the nodes of a drawing. -/
theorem not_mem_writeAll_drawn (hns : Drawn ns) : '\r' ∉ m.writeAll raw ns := by
  induction hns generalizing raw with
  | nil =>
      rw [Manner.writeAll]
      exact List.not_mem_nil
  | text _ _ hreturn _ _ ih =>
      have htext := not_mem_text hreturn raw
      rw [write] at htext
      rw [Manner.writeAll, Manner.write, List.mem_append, not_or]
      exact ⟨htext, ih⟩
  | element hname _ _ ihChildren ih =>
      have hwritable := writable_of_mem hname
      have hstart := not_mem_startTag hwritable
      have hbracket : ('\r' : Char) ≠ '>' := by decide
      rw [Manner.writeAll, Manner.write, List.mem_append, not_or]
      refine ⟨?_, ih⟩
      -- Only what stands between the tags could have one.
      split
      · simp [hstart]
      · simp only [List.mem_append, List.mem_cons, not_or]
        exact ⟨⟨hstart, hbracket, ihChildren⟩, not_mem_endTag hwritable⟩

end Lines

section Reading

variable {tag : Tag} {ns : List Node}

/-- The attributes that the root of a drawing has when it is read again. -/
def finishedTag (tag : Tag) : Tag where
  name := tag.name
  attributes := Item.finishAttributes (Foreign.attributesIn .svg (tokenOf tag).attributes)

/-- Inside the root of a drawing at the start of a text. -/
theorem inside_start {m : Manner} (hvoid : m.void.contains "svg" = false)
    (attributes : List Html.Attribute) :
    Inside m ⟨1, ⟨.svg, "svg"⟩⟩ [rootElement]
      (Builder.entered {} ⟨.svg, "svg"⟩ attributes []) where
  ready := ready_start.entered rfl attributes (List.nil_sublist (Builder.remembering {} _ default))
  mode := rfl
  formatting := rfl
  outside := List.cons_ne_nil _ _
  graphics := ⟨rfl, List.mem_cons_self⟩
  ended := hvoid
  stack := ⟨[], rfl, by simp⟩

/-- The start tag of the root opens it. -/
theorem Drawing.grow_startTag (h : Drawing tag ns) (rest : List Char) :
    grow {} (startTag tag ++ '>' :: rest) =
      grow (Builder.entered {} ⟨.svg, "svg"⟩
        (Foreign.attributesIn .svg (tokenOf tag).attributes) []) rest := by
  have hadmits : admits [.html "html"] tag.name = true := by
    rw [h.name]
    decide +kernel
  have hchild : childName (Builder.current {}).name tag.name = ⟨.svg, "svg"⟩ := by
    rw [h.name]
    rfl
  have hskips : skipping.contains tag.name = false := by
    rw [h.name]
    decide
  rw [← h.name] at hchild
  have hgrow := ready_start.grow_startTag_graphics h.writable hadmits hchild hskips rfl rest
  rw [h.name] at hgrow
  exact hgrow

/-- What is written of a drawing is its start tag, and what is inside it with its end
    tag. -/
theorem Drawing.write_eq (h : Drawing tag ns) {m : Manner} (hvoid : m.void.contains "svg" = false)
    (hraw : m.raw.contains "svg" = false) :
    m.write false (.element tag ns) =
      startTag tag ++ '>' :: (m.writeAll false ns ++ (endTag { name := "svg" } ++ [])) := by
  have hend : endTag tag = endTag { name := "svg" } := by
    rw [endTag, h.name]
    rfl
  rw [Manner.write, h.name, hvoid, hraw, if_neg Bool.false_ne_true, hend, List.append_nil]
  simp only [List.append_assoc, List.cons_append]

theorem Drawing.not_mem_write (h : Drawing tag ns) {m : Manner}
    (hvoid : m.void.contains "svg" = false) (hraw : m.raw.contains "svg" = false) :
    '\r' ∉ m.write false (.element tag ns) := by
  have hstart := not_mem_startTag h.writable
  have hinside : '\r' ∉ m.writeAll false ns := not_mem_writeAll_drawn h.nodes
  rw [h.write_eq hvoid hraw]
  simp only [List.mem_append, List.mem_cons, not_or]
  exact ⟨hstart, by decide, hinside, by decide +kernel, List.not_mem_nil⟩

/-- What is read of a drawing that was written in some manner. -/
theorem Drawing.read_write (h : Drawing tag ns) {m : Manner}
    (hvoid : m.void.contains "svg" = false) (hraw : m.raw.contains "svg" = false)
    (hquiet : m.quietAll false ns = true) :
    read (m.write false (.element tag ns)) =
      [.element (finishedTag tag) (m.settleAll false ns)] := by
  have hmark : (m.write false (.element tag ns)).head? ≠ some '\uFEFF' := by
    rw [h.write_eq hvoid hraw, startTag_append]
    simp
  have hsvg : IsGraphics ⟨.svg, "svg"⟩ := ⟨rfl, List.mem_cons_self⟩
  have hgrow := Inside.grow_writeAll h.nodes
    (inside_start hvoid (Foreign.attributesIn .svg (tokenOf tag).attributes)) hquiet []
  -- The root is closed, so it might have been full when it was put in its place.
  have hfilled : ((Builder.entered {} ⟨.svg, "svg"⟩
      (Foreign.attributesIn .svg (tokenOf tag).attributes) []).filledWith
        (m.settleAll false ns)).leftFor [rootElement] =
      Builder.filled {} [.element 1 ⟨.svg, "svg"⟩
        (Foreign.attributesIn .svg (tokenOf tag).attributes)
        (Item.gather (numberAll ⟨.svg, "svg"⟩ 2 (m.settleAll false ns)).1)]
        (numberAll ⟨.svg, "svg"⟩ 2 (m.settleAll false ns)).2 [] :=
    ready_start.left_entered _ _ _ _ [] [] []
  have htop : (⟨.svg, "svg"⟩ : Name).isHtml "template" = false := rfl
  rw [Html.read, Text.dropMark_of_unmarked hmark,
    normalizeLines_of_not_mem (h.not_mem_write hvoid hraw), h.write_eq hvoid hraw,
    h.grow_startTag, hgrow, hfilled, grow, children_finish_filled, Item.gather_singleton,
    Item.toNodes, Item.toNodes, Item.toNode, htop, gather_settleAll h.nodes,
    toNodes_settleAll h.nodes hsvg, finishedTag, h.name]
  rfl

/-- A drawing is a document of its own in a dialect that reads anything. -/
theorem parse_ofList (cs : List Char) :
    Document.parse .permissive (String.ofList cs) = .ok ⟨.permissive, read cs⟩ := by
  have hparse : Document.parse .permissive (String.ofList cs) =
      .ok ⟨.permissive, read (String.ofList cs).toList⟩ := rfl
  rw [hparse, String.toList_ofList]

/-- A drawing that is spelled out comes back if its own attributes do. -/
theorem Drawing.parse_spelledOut_iff (h : Drawing tag ns) :
    Document.parse .permissive
        (String.ofList (Manner.spelledOut.write false (.element tag ns))) =
      .ok ⟨.permissive, [.element tag ns]⟩ ↔ finishedTag tag = tag := by
  -- With both tags for every element nothing inside changes its place.
  have hsettled : Manner.spelledOut.settleAll false ns = ns :=
    (Manner.settleAll_eq_iff _ _ _).2 (Manner.intactAll_spelledOut ns)
  rw [parse_ofList, h.read_write rfl rfl (Manner.quietAll_spelledOut ns), hsettled,
    Except.ok.injEq, Document.mk.injEq, and_iff_right rfl, List.cons.injEq, and_iff_left rfl,
    Node.element.injEq, and_iff_left rfl]

/-- What is read of a drawing that the printer has written, if the drawing comes back when
    it is spelled out and no text in a style sheet holds the start of a tag or a comment.
    In the texts of style sheets references are decoded, and a link has lost what was
    inside it and taken over what stood behind it. The drawing comes back exactly if no
    text in a style sheet has a reference in it and each link is empty and the last of
    its siblings. -/
theorem parse_serialize_drawing (h : Drawing tag ns)
    (hquiet : Manner.printed.quietAll false ns = true)
    (hspelledOut : Document.parse .permissive
        (String.ofList (Manner.spelledOut.write false (.element tag ns))) =
      .ok ⟨.permissive, [.element tag ns]⟩) :
    Document.parse .permissive (Document.serialize ⟨.permissive, [.element tag ns]⟩) =
        .ok ⟨.permissive, [.element tag (Manner.printed.settleAll false ns)]⟩ ∧
      (Document.parse .permissive (Document.serialize ⟨.permissive, [.element tag ns]⟩) =
          .ok ⟨.permissive, [.element tag ns]⟩ ↔
        Manner.printed.intactAll false ns = true) := by
  have htag := h.parse_spelledOut_iff.1 hspelledOut
  have hserialize : Document.serialize ⟨.permissive, [.element tag ns]⟩ =
      String.ofList (Manner.printed.write false (.element tag ns)) := by
    rw [Document.serialize, List.flatMap_singleton, Manner.write_printed]
    rfl
  have hparse : Document.parse .permissive
      (Document.serialize ⟨.permissive, [.element tag ns]⟩) =
        .ok ⟨.permissive, [.element tag (Manner.printed.settleAll false ns)]⟩ := by
    rw [hserialize, parse_ofList, h.read_write (by decide) (by decide) hquiet, htag]
  refine ⟨hparse, ?_⟩
  rw [hparse, ← Manner.settleAll_eq_iff, Except.ok.injEq, Document.mk.injEq,
    and_iff_right rfl, List.cons.injEq, and_iff_left rfl, Node.element.injEq, and_iff_right rfl]

/-- A style sheet with a comparison in it, and a link in the right place. -/
theorem parse_serialize_drawing_styled :
    let tag : Tag := { name := "svg", attributes := [{ name := "viewBox", value := "0 0 9 9" }] }
    let ns : List Node :=
      [.element { name := "style" } [.text "a > b { x: 1 < 2 && 3 }"],
        .element { name := "g" } [.text "<g>&lt;", .element { name := "link" } []]]
    Drawing tag ns ∧ Manner.printed.quietAll false ns = true ∧
      Document.parse .permissive
          (String.ofList (Manner.spelledOut.write false (.element tag ns))) =
        .ok ⟨.permissive, [.element tag ns]⟩ ∧
      Document.parse .permissive (Document.serialize ⟨.permissive, [.element tag ns]⟩) =
        .ok ⟨.permissive, [.element tag ns]⟩ := by
  intro tag ns
  have hdrawing : Drawing tag ns := by
    refine ⟨rfl, by decide +kernel, .element (by decide) ?_ (.element (by decide) ?_ .nil)⟩
    · exact .text (by decide) (by decide) (by decide) (by simp) .nil
    · exact .text (by decide) (by decide) (by decide) (by simp [Faithful.isTextNode])
        (.element (by decide) .nil .nil)
  have hquiet : Manner.printed.quietAll false ns = true := by decide +kernel
  have hspelledOut := hdrawing.parse_spelledOut_iff.2 (by decide +kernel)
  exact ⟨hdrawing, hquiet, hspelledOut,
    (parse_serialize_drawing hdrawing hquiet hspelledOut).2.2 (by decide +kernel)⟩

/-- The text of the style sheet is a tag when it is written as it is, and the text inside
    the link is not written. -/
theorem parse_serialize_drawing_ne :
    let ns : List Node :=
      [.element { name := "style" } [.text "<g>"], .element { name := "link" } [.text "x"]]
    Drawing { name := "svg" } ns ∧
      Document.parse .permissive
          (String.ofList (Manner.spelledOut.write false (.element { name := "svg" } ns))) =
        .ok ⟨.permissive, [.element { name := "svg" } ns]⟩ ∧
      Document.parse .permissive
          (Document.serialize ⟨.permissive, [.element { name := "svg" } ns]⟩) ≠
        .ok ⟨.permissive, [.element { name := "svg" } ns]⟩ := by
  intro ns
  have hdrawing : Drawing { name := "svg" } ns := by
    refine ⟨rfl, by decide +kernel, .element (by decide) ?_ (.element (by decide) ?_ .nil)⟩
    · exact .text (by decide) (by decide) (by decide) (by simp) .nil
    · exact .text (by decide) (by decide) (by decide) (by simp) .nil
  refine ⟨hdrawing, hdrawing.parse_spelledOut_iff.2 (by decide +kernel), fun hparse => ?_⟩
  -- If the drawing came back, the text would be written again from what was read of it.
  have hwritten : Document.serialize ⟨.permissive, [.element { name := "svg" } ns]⟩ =
      "<svg><style><g></style><link></svg>" := by decide +kernel
  have hagain : Document.serialize ⟨.permissive,
      read "<svg><style><g></style><link></svg>".toList⟩ ≠
      "<svg><style><g></style><link></svg>" := by decide +kernel
  rw [hwritten] at hparse
  exact hagain ((congrArg Document.serialize (Except.ok.inj hparse)).trans hwritten)

end Reading

end SoleRoot

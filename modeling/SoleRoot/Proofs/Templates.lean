import SoleRoot.Proofs.PlainTrees

/-!
# What Is Inside a Template

Templates are read with all that is inside them, and finished without it.

A template has modes of its own. Directly behind its start tag the reader is in a mode
in which texts and comments are put in their places, and in which the first start tag
says by what rules the template is read from then on. An ordinary element says that
these are the rules of the body. A mark on the list of formatting elements keeps those
outside from being opened again inside, and the end tag takes everything back to the
mark.

So a template with nodes inside is put in its place as any other element is. Its item
holds the items of all of them. But a finished tree has nothing inside a template, so
of the nodes nothing is left.

## Main definitions

* `isOrdinary`: An element of the name has a template read by the rules of the body.
* `TakesIn`: Nodes are put into a template.

## Theorems

* `Receptive.takesIn`: Nodes that fit are put into a template.
* `Ready.exists_grow_template`: A template is put in its place.
* `parse_template`: What is read of a template.
* `parse_template_ne`: A template that loses what is inside it.
-/

namespace SoleRoot

namespace Html

open Builder

/-- Whether an element of a name has a template read by the rules of the body. -/
def isOrdinary (name : String) : Bool :=
  !metadata.contains name && templateModeFor name == .inBody

section Templates

variable {names : List Name} {b : Builder}

theorem Receptive.mode_ne (h : Receptive names b) : b.mode ≠ .inText ∧ b.mode ≠ .inTableText := by
  have hmode := h.mode
  constructor
  all_goals
    intro hm
    rw [hm] at hmode
    exact absurd hmode Bool.false_ne_true

theorem modeFor_template (hnames : names ≠ []) :
    modeFor (.html "template" :: names) = .inBody :=
  modeFor_cons hnames _

/-- Read by the rules of the body, a template is ready for nodes. -/
theorem Receptive.ready_templateAs (h : Receptive (.html "template" :: names) b)
    (hnames : names ≠ []) : Ready (.html "template" :: names) (b.templateAs .inBody) where
  toStill := { h.toStill with }
  mode := (modeFor_template hnames).symm
  reset := by
    have hopen := h.names
    have hmodes : (b.templateAs .inBody).templateModes.head?.getD .inBody = .inBody := rfl
    have hstack : (b.templateAs .inBody).stack = b.stack := rfl
    rw [modeFor_template hnames, hstack]
    cases hos : b.stack with
    | nil => exact absurd hos h.nonempty
    | cons o os =>
        rw [hos, List.map_cons, List.cons.injEq] at hopen
        have hne : os ≠ [] := fun hnil => hnames (by rw [← hopen.2, hnil, List.map_nil])
        rw [modeOf_cons _ _ hne, hopen.1, hmodes]
        rfl

/-- The first ordinary start tag inside a template is read by the rules of the body. -/
theorem Receptive.accept_startTag (h : Receptive (.html "template" :: names) b)
    (hnames : names ≠ []) (hmode : b.mode = .inTemplate) {tag : TagToken}
    (hordinary : isOrdinary tag.name = true) :
    b.accept (.startTag tag) = (b.templateAs .inBody).accept (.startTag tag) := by
  have hready := h.ready_templateAs hnames
  have hspace : b.current.name.space = .html := by
    rw [← h.innermost_names]
    rfl
  simp only [isOrdinary, Bool.and_eq_true, Bool.not_eq_true', beq_iff_eq] at hordinary
  rcases hordinary with ⟨hmetadata, htemplate⟩
  have hlooks : b.looks = 4 * b.stack.length + 6 + 1 + 1 := rfl
  -- The tag is looked at twice: the first look tells by what rules to read.
  have hagain : b.look (.startTag tag) = .again (.startTag tag) (b.templateAs .inBody) := by
    rw [look_html (isForeign_of_html hspace _), Builder.inMode, hmode]
    simp only [Builder.inTemplateMode, hmetadata, Bool.false_eq_true, if_false, htemplate]
    rfl
  have hdone : (b.templateAs .inBody).look (.startTag tag) =
      .done ((b.templateAs .inBody).acceptInBody (.startTag tag)) :=
    look_html (isForeign_of_html (b := b.templateAs .inBody) hspace _)
  rw [h.accept_eq (by simp), hready.accept (by simp) hdone]
  simp only [hlooks, Builder.lookAgain, hagain, hdone]

/-- The same of a whole node. -/
theorem Receptive.grow_element (h : Receptive (.html "template" :: names) b) (hnames : names ≠ [])
    (hmode : b.mode = .inTemplate) {raw : Bool} {tag : Tag} {children : List Node}
    (hwritable : Writable tag) (hordinary : isOrdinary (tokenOf tag).name = true)
    (rest : List Char) :
    grow b (write raw (.element tag children) ++ rest) =
      grow (b.templateAs .inBody) (write raw (.element tag children) ++ rest) := by
  rcases begins_element raw children hwritable rest with
    ⟨c, ds, more, hwritten, hnext⟩
  have hready := h.ready_templateAs hnames
  rw [hwritten, h.grow_piece (hnext _), hready.grow_piece (hnext _),
    h.accept_startTag hnames hmode hordinary]

theorem templateAs_filled (b : Builder) (mode : InsertionMode) (is js : List Item) (k l : Nat)
    (f g : List Entry) :
    ((b.filled is k f).templateAs mode).filled js l g =
      (b.templateAs mode).filled (is ++ js) l g := by
  rw [← filled_filled (b.templateAs mode) is js k l f g]
  rfl

/-- Whether nodes are put into the innermost template, by whatever rules it is read in the
    end. -/
def TakesIn (raw : Bool) (ns : List Node) (b : Builder) : Prop :=
  ∃ mode f, (mode = .inBody ∨ mode = .inTemplate) ∧ f.Sublist b.formatting ∧
    ∀ rest, rest.head? ≠ some '\uFEFF' → grow b (writeAll raw ns ++ rest) =
      grow ((b.templateAs mode).filled (numberAll b.current.name b.nextId ns).1
        (numberAll b.current.name b.nextId ns).2 f) rest

/-- What is not an element changes nothing but the items. -/
theorem takesIn_cons {raw : Bool} {n : Node} {ns : List Node} {i : Item}
    (hn : number b.current.name b.nextId n = (i, b.nextId))
    (hgrow : ∀ rest, grow b (write raw n ++ rest) = grow (b.filled [i] b.nextId b.formatting) rest)
    (hrest : TakesIn raw ns (b.filled [i] b.nextId b.formatting)) : TakesIn raw (n :: ns) b := by
  rcases hrest with ⟨mode, f, hmode, hf, hcontents⟩
  refine ⟨mode, f, hmode, hf, fun rest hmark => ?_⟩
  rw [writeAll, List.append_assoc, hgrow, hcontents rest hmark, templateAs_filled, numberAll, hn]
  rfl

/-- Nodes that fit are put into a template. Up to the first element it does not matter
    by what rules the template will be read. -/
theorem Receptive.takesIn (h : Receptive (.html "template" :: names) b) (hnames : names ≠ [])
    (hmode : b.templateAs .inTemplate = b) {raw : Bool} (ns : List Node)
    (hfits : fitsAll raw (.html "template" :: names) ns = true)
    (hordinary : ∀ tag children, .element tag children ∈ ns →
      isOrdinary (tokenOf tag).name = true) : TakesIn raw ns b := by
  have hbody : takesText (modeFor (.html "template" :: names)) = true := by
    rw [modeFor_template hnames]
    rfl
  induction ns generalizing b with
  | nil =>
      refine ⟨.inTemplate, b.formatting, .inr rfl, List.Sublist.refl _, fun rest _ => ?_⟩
      rw [writeAll, numberAll, hmode]
      rfl
  | cons n ns ih =>
      have hfirst := hfits
      rw [fitsAll, Bool.and_eq_true, Bool.and_eq_true] at hfirst
      rcases hfirst with ⟨⟨hn, hns⟩, _⟩
      -- Behind a text or a comment the template is still to be told by what rules to go.
      have haside (i : Item) (hi : i.every (Item.Below b.nextId)) :
          TakesIn raw ns (b.filled [i] b.nextId b.formatting) := by
        have hitems := Item.everyAll_singleton.2 hi
        have hnext := h.filled (Nat.le_refl _) hitems (List.Sublist.refl _)
        have hsame : (b.filled [i] b.nextId b.formatting).templateAs .inTemplate =
            b.filled [i] b.nextId b.formatting :=
          congrArg (fun c : Builder => c.filled [i] b.nextId b.formatting) hmode
        exact ih hnext hsame hns fun tag children hmem =>
          hordinary tag children (List.mem_cons_of_mem _ hmem)
      cases n with
      | element tag children =>
          have hready := h.ready_templateAs hnames
          rcases hready.exists_growAll_write (.element tag children :: ns) hfits with
            ⟨f, hf, hgrow⟩
          refine ⟨.inBody, f, .inl rfl, hf, fun rest hmark => ?_⟩
          -- From the first element on the template is read like a body.
          have hall := hgrow rest hmark fun htable => absurd htable (by rw [hbody]; decide)
          rw [writeAll, List.append_assoc] at hall ⊢
          exact (h.grow_element hnames (hmode ▸ rfl) (fits_element_cases hn).1
            (hordinary tag children List.mem_cons_self) _).trans hall
      | text content =>
          rw [fits, fitsText] at hn
          simp only [Bool.and_eq_true, decide_eq_true_eq] at hn
          exact takesIn_cons (by rw [number]) (h.grow_text hn.1.1.1 hn.1.1.2 hn.1.2)
            (haside _ (Item.every_text _ content))
      | comment content =>
          rw [fits, decide_eq_true_eq] at hn
          refine takesIn_cons (by rw [number]) (fun rest => ?_) (haside _ (Item.every_comment _ _))
          rw [write]
          exact h.grow_comment h.mode_ne hn rest
      | cdata content =>
          rw [fits] at hn
          exact absurd hn Bool.false_ne_true

/-- A template is put in its place, with all that is inside it. -/
theorem Ready.exists_grow_template (h : Ready names b) (hreads : readsHtml b.current.name = true)
    (ns : List Node) (hfits : fitsAll false (.html "template" :: names) ns = true)
    (hordinary : ∀ tag children, .element tag children ∈ ns →
      isOrdinary (tokenOf tag).name = true) :
    ∃ f, f.Sublist b.formatting ∧ ∀ rest,
      grow b (write false (.element { name := "template" } ns) ++ rest) =
        grow (b.filled [.element b.nextId (.html "template") []
          (Item.gather (numberAll (.html "template") (b.nextId + 1) ns).1)]
          (numberAll (.html "template") (b.nextId + 1) ns).2 f) rest := by
  have hwritable : Writable { name := "template" } := ⟨by decide, by simp⟩
  have hlowered : tokenOf { name := "template" } = { name := "template" } := rfl
  have hentered := h.enteredTemplate []
  rcases hentered.takesIn h.names_ne_nil rfl ns hfits hordinary with
    ⟨mode, g, hmode, hg, hcontents⟩
  have hfilled : Still (.html "template" :: names) (((b.enteredTemplate []).templateAs mode).filled
      (numberAll (.html "template") (b.nextId + 1) ns).1
      (numberAll (.html "template") (b.nextId + 1) ns).2 g) :=
    { hentered.toStill.filled (le_numberAll (.html "template") (b.nextId + 1) ns)
        (belowAll_numberAll _ _ ns) hg with }
  rcases h.exists_look_endTemplate hmode [] (numberAll (.html "template") (b.nextId + 1) ns).1
    (numberAll (.html "template") (b.nextId + 1) ns).2 hg with ⟨f, hf, hend⟩
  refine ⟨f, hf, fun rest => ?_⟩
  have hvoid : voidNames.contains "template" = false := by decide
  have hraw : rawNames.contains "template" = false := by decide
  have hname : ({ name := "template" } : TagToken).name = "template" := rfl
  have hstart := h.look_startTemplate hreads hname
  have hmark : (endTag { name := "template" } ++ rest).head? ≠ some '\uFEFF' := by
    simp [endTag_append]
  have hclose := hfilled.grow_piece (next_endTag hwritable.name _ rest)
  rw [write_element_append _ _ hvoid, hraw, startTag_append,
    h.grow_piece (next_startTag hwritable _ _), hlowered, h.accept (by simp) hstart]
  refine (hcontents _ hmark).trans ?_
  rw [endTag_append]
  exact hclose.trans (congrArg (grow · rest) (hfilled.accept (by simp) hend))

/-- A finished template has nothing inside it. -/
theorem toNode_template (k : Nat) (attributes : List Attribute) (items : List Item) :
    Item.toNode (.element k (.html "template") attributes items) =
      .element { name := "template", attributes := Item.finishAttributes attributes } [] := by
  have htemplate : (Name.html "template").isHtml "template" = true := rfl
  rw [Item.toNode, htemplate, if_pos rfl]
  rfl

end Templates

end Html

open Html

section Reading

variable {ns : List Node}

theorem ordinary_of_plain (h : plainAll ns) :
    ∀ tag children, .element tag children ∈ ns → isOrdinary (tokenOf tag).name = true := by
  induction ns with
  | nil => simp
  | cons n ns ih =>
      intro tag children hmem
      rw [plainAll] at h
      rcases List.mem_cons.1 hmem with rfl | hmem
      -- No plain name has rules of its own in a template.
      · have hall : ∀ name ∈ plainNames, isOrdinary (lowered name) = true := by decide +kernel
        have helement := h.1
        rw [plain] at helement
        exact hall _ helement.1.name
      · exact ih h.2 tag children hmem

/-- A template with a plain tree inside it is read as one node without anything inside.
    The tree is there until then: the item of the template holds all of it. So what was
    inside the template is what is read exactly if there was nothing. -/
theorem parse_template (h : plainAll ns) (hapart : Faithful.apartAll ns) :
    let source := "<template>" ++ Document.serialize ⟨.permissive, ns⟩ ++ "</template>"
    (∃ items, (grow {} source.toList).tree.children = [.element 1 (.html "template") [] items] ∧
      List.Forall₂ Node.Reordered (Node.unspelledAll ns) (Item.toNodes items)) ∧
    Document.parse .permissive source = .ok ⟨.permissive, [.element { name := "template" } []]⟩ ∧
    (Document.parse .permissive source =
      .ok ⟨.permissive, [.element { name := "template" } ns]⟩ ↔ ns = []) := by
  intro source
  have hunruled : Unruled [.html "template", .html "html"] := ⟨by decide, by decide, by decide, rfl⟩
  have hfits := fitsAll_of_plain hunruled ns h
  have hreads : readsHtml (.html "html") = true := rfl
  have hreadsTemplate : readsHtml (.html "template") = true := rfl
  have hsource : source.toList = write false (.element { name := "template" } ns) := by
    have hvoid : ¬ voidNames.contains "template" = true := by decide
    have hraw : rawNames.contains "template" = false := by decide
    rw [write, if_neg hvoid, hraw, ← Document.toList_serialize_permissive]
    simp [source, startTag, endTag]
  rcases ready_start.exists_grow_template hreads ns hfits (ordinary_of_plain h) with
    ⟨f, _, hgrow⟩
  have hgrown := hgrow []
  rw [List.append_nil, ← hsource, grow] at hgrown
  have htree : (grow {} source.toList).tree.children =
      [.element 1 (.html "template") [] (numberAll (.html "template") 2 ns).1] := by
    rw [hgrown, children_finish_filled, Item.gather_singleton, gather_numberAll _ _ h hapart]
  have hparse : Document.parse .permissive source =
      .ok ⟨.permissive, [.element { name := "template" } []]⟩ := by
    -- What is written has no carriage return, and it starts with a bracket.
    have hplain : normalizeLines (Text.dropMark source.toList) = source.toList := by
      have hinside := not_mem_writeAll ns hfits
      have hstart : '\r' ∉ startTag { name := "template" } := by decide
      have hend : '\r' ∉ endTag { name := "template" } := by decide
      rw [Text.dropMark_of_unmarked (by rw [hsource, head?_write_element]; decide)]
      refine normalizeLines_of_not_mem ?_
      rw [hsource, write]
      simp [voidNames, hstart, hend, hinside, rawNames]
    have hread : Document.parse .permissive source =
        .ok ⟨.permissive, Item.toNodes (grow {} (normalizeLines
          (Text.dropMark source.toList))).tree.children⟩ := rfl
    rw [hread, hplain, htree, Item.toNodes, Item.toNodes, toNode_template]
    simp [Item.finishAttributes]
  refine ⟨⟨_, htree, reorderedAll_number hreadsTemplate 2 ns h hapart⟩, hparse, ?_⟩
  rw [hparse, Except.ok.injEq, Document.mk.injEq, and_iff_right rfl, List.cons.injEq,
    and_iff_left rfl, Node.element.injEq, and_iff_right rfl]
  exact eq_comm

/-- Texts around elements inside elements. -/
theorem parse_template_nested :
    let ns : List Node := [.text "a<", .element { name := "div" }
      [.element { name := "span" } [.text "b"], .text "&"], .text "c"]
    plainAll ns ∧ Faithful.apartAll ns ∧
      Document.parse .permissive "<template>a&lt;<div><span>b</span>&amp;</div>c</template>" =
        .ok ⟨.permissive, [.element { name := "template" } []]⟩ := by
  intro ns
  have hdiv : PlainTag { name := "div" } := ⟨by decide, by simp, by simp, by simp⟩
  have hspan : PlainTag { name := "span" } := ⟨by decide, by simp, by simp, by simp⟩
  have hplain : plainAll ns := by simp [ns, plainAll, plain, hdiv, hspan]
  have hapart : Faithful.apartAll ns := by
    simp [ns, Faithful.apartAll, Faithful.apart, Faithful.isTextNode]
  have hwritten : "<template>" ++ Document.serialize ⟨.permissive, ns⟩ ++ "</template>" =
      "<template>a&lt;<div><span>b</span>&amp;</div>c</template>" := by
    decide +kernel
  have hparse := (parse_template hplain hapart).2.1
  rw [hwritten] at hparse
  exact ⟨hplain, hapart, hparse⟩

/-- A block inside a template is lost. -/
theorem parse_template_ne :
    let ns : List Node := [.element { name := "div" } []]
    plainAll ns ∧ Faithful.apartAll ns ∧
      Document.parse .permissive
          ("<template>" ++ Document.serialize ⟨.permissive, ns⟩ ++ "</template>") ≠
        .ok ⟨.permissive, [.element { name := "template" } ns]⟩ := by
  intro ns
  have hdiv : PlainTag { name := "div" } := ⟨by decide, by simp, by simp, by simp⟩
  refine ⟨by simp [ns, plainAll, plain, hdiv], ?_, fun hparse => ?_⟩
  · simp [ns, Faithful.apartAll, Faithful.apart, Faithful.isTextNode]
  -- If the block came back, it would be written again.
  have hsource : "<template>" ++ Document.serialize ⟨.permissive, ns⟩ ++ "</template>" =
      "<template><div></div></template>" := by
    decide +kernel
  have hagain : Document.serialize ⟨.permissive, read "<template><div></div></template>".toList⟩ =
      "<template></template>" := by
    decide +kernel
  have hwritten : Document.serialize ⟨.permissive, [.element { name := "template" } ns]⟩ =
      "<template><div></div></template>" := by
    decide +kernel
  rw [hsource] at hparse
  have hsame := congrArg Document.serialize (Except.ok.inj hparse)
  exact absurd (hagain.symm.trans (hsame.trans hwritten)) (by decide)

end Reading

end SoleRoot

import SoleRoot.Proofs.Html.Parts
import SoleRoot.Proofs.Html.Spelled

/-!
# Elements Inside Elements

What a reader does with the tags, the texts and the comments inside an open
element.

Inside an element of HTML the rules of its mode apply, and inside graphics and formulas
rules of their own, except that a few elements there hold HTML again. A name is therefore
admitted by one of several conditions. In HTML that is the one of the body or that of parts,
and the tags that begin graphics and formulas are admitted, too. In graphics and formulas
a name must not be one of those that break out, and must be spelled as it is spelled
there.

An element that holds nothing is admitted in HTML only. It is put in its place and
never opened.

All of this takes a reader one look at a token. So it is said of `Builder.look`, and holds
also where something else was looked at before.

## Main definitions

* `childName`: The namespace that a name gets inside an element.
* `admits`: Whether a start tag opens an element and does nothing else.
* `admitsVoid`: Whether it puts an element in its place that holds nothing.
* `Builder.begun`: The state behind a start tag.

## Theorems

* `Ready.exists_begun`: The start tag of an admitted element opens it.
* `Ready.exists_left`: Its end tag closes it.
* `Ready.look_void`: An element that holds nothing is only put in its place.
* `Receptive.look_text`, `Still.look_comment`: So are texts and comments.
-/

namespace SoleRoot

namespace Html

open Builder

/-- Whether what is read inside an element is read by the rules of HTML. -/
def readsHtml (n : Name) : Bool :=
  n.space == .html || n.isGraphicsHtml || n.isFormulaText

/-- The name that an element has inside another. -/
def childName (parent : Name) (name : String) : Name :=
  if readsHtml parent then
    if name = "svg" then ⟨.svg, name⟩
    else if name = "math" then ⟨.mathml, name⟩
    else .html name
  else ⟨parent.space, name⟩

/-- The start tags that are not read by the rules of HTML where those of all others are. -/
def glyphs : List String :=
  ["mglyph", "malignmark"]

/-- Whether a start tag in graphics or a formula opens an element and does nothing else. -/
def admitsInForeign (space : Namespace) (name : String) : Bool :=
  !breakouts.contains (lowered name) && lowered name != "font" &&
    (if space = .svg then Foreign.graphicsName (lowered name) else lowered name) == name &&
    name.toLower == lowered name

/-- Whether a start tag opens an element and does nothing else. -/
def admits (names : List Name) (name : String) : Bool :=
  if readsHtml (innermost names) then
    lowered name == name && !((innermost names).isFormulaText && glyphs.contains name) &&
      (isFlow (modeFor names) && (["svg", "math"].contains name || admitsInBody names name) ||
        admitsPart names name)
  else
    admitsInForeign (innermost names).space name &&
      !(innermost names == ⟨.mathml, "annotation-xml"⟩ && lowered name == "svg")

/-- The names of elements that hold nothing wherever they stand in a body. -/
def voidAnywhere : List String :=
  ["area", "br", "embed", "img", "input", "wbr", "source", "track", "base", "link", "meta"]

/-- Whether a start tag puts an element in its place that holds nothing. -/
def admitsVoid (names : List Name) (name : String) : Bool :=
  lowered name == name && readsHtml (innermost names) &&
    (isFlow (modeFor names) &&
        (voidAnywhere.contains name || name == "hr" && !inParagraph names) ||
      modeFor names == .inColumnGroup && name == "col" ||
      [.inSelect, .inSelectInTable].contains (modeFor names) && name == "hr" &&
        (innermost names).isHtml "select")

/-- The state behind the start tag of an element that was opened. -/
def Builder.begun (b : Builder) (t : Tag) (formatting : List Entry) : Builder :=
  let name := childName b.current.name t.name
  { b.entered name (Foreign.attributesIn name.space (tokenOf t).attributes) formatting with
    skipsLineFeed := skipping.contains t.name }

/-- Only the namespace of a name depends on the parent. -/
theorem localName_childName (parent : Name) (name : String) :
    (childName parent name).localName = name := by
  unfold childName
  repeat' split
  all_goals rfl

section Rules

variable {names : List Name} {b : Builder} {u : Token}

/-- In an element of HTML the rules of HTML apply to all tokens. -/
theorem isForeign_of_html (h : b.current.name.space = .html) (u : Token) :
    b.isForeign u = false := by
  simp only [Builder.isForeign, h, if_true]

/-- Inside some elements of graphics and formulas start tags and texts are HTML. -/
theorem isForeign_of_readsHtml (h : readsHtml b.current.name = true) (hu : u.isContent = true)
    (hglyph : b.current.name.isFormulaText = true → u.starts glyphs = false) :
    b.isForeign u = false := by
  rw [readsHtml, Bool.or_eq_true, Bool.or_eq_true, beq_iff_eq] at h
  rcases h with (hhtml | hgraphics) | hformula
  · exact isForeign_of_html hhtml u
  · simp only [Builder.isForeign, hgraphics, hu, Bool.and_self, if_true, ite_self]
  -- In the text of a formula two kinds of start tags are read by the rules of formulas all the
  -- same.
  · have hstarts := hglyph hformula
    rw [glyphs] at hstarts
    simp only [Builder.isForeign, hformula, hu, hstarts, Bool.not_false, Bool.and_self, if_true,
      ite_self]

/-- Elsewhere in graphics and formulas, and at all end tags and comments there, their
    rules apply. -/
theorem isForeign_of_space (h : b.current.name.space ≠ .html)
    (hu : readsHtml b.current.name = false ∨ u.isContent = false)
    (hannotated : b.current.name = ⟨.mathml, "annotation-xml"⟩ → u.starts ["svg"] = false) :
    b.isForeign u = true := by
  have hformula : (b.current.name.isFormulaText && u.isContent) = false := by
    rcases hu with hreads | hcontent
    · rw [readsHtml, Bool.or_eq_false_iff] at hreads
      rw [hreads.2, Bool.false_and]
    · rw [hcontent, Bool.and_false]
  have hgraphics : (b.current.name.isGraphicsHtml && u.isContent) = false := by
    rcases hu with hreads | hcontent
    · rw [readsHtml, Bool.or_eq_false_iff, Bool.or_eq_false_iff] at hreads
      rw [hreads.1.2, Bool.false_and]
    · rw [hcontent, Bool.and_false]
  -- An annotation is an exception for the start tag of graphics only.
  by_cases hname : b.current.name = ⟨.mathml, "annotation-xml"⟩
  · simp [Builder.isForeign, h, hformula, hgraphics, hannotated hname]
  · simp [Builder.isForeign, h, hformula, hgraphics, hname]

/-- Where the rules of HTML do not apply the element is not one of HTML. -/
theorem space_ne_of_not_readsHtml {n : Name} (h : readsHtml n = false) : n.space ≠ .html := by
  rw [readsHtml, Bool.or_eq_false_iff, Bool.or_eq_false_iff] at h
  exact beq_eq_false_iff_ne.1 h.1.1

/-- Text is put in its place. -/
theorem Receptive.look_text (h : Receptive names b) {content : List Char} (hne : content ≠ []) :
    b.look (.text content) =
      .done (b.filled [.text (String.ofList content)] b.nextId b.formatting) := by
  rw [← h.insertText hne]
  cases hreads : readsHtml b.current.name with
  | true =>
      have hbody : b.acceptInBody (.text content) = b.insertText content := by
        rw [Builder.acceptInBody, h.reopenFormatting]
      have hmode := h.mode
      rw [look_html (isForeign_of_readsHtml hreads rfl fun _ => rfl), Builder.inMode]
      cases hm : b.mode with
      -- In these modes text goes the way it goes in a body.
      | inBody | inCaption | inCell | inTemplate => exact congrArg Outcome.done hbody
      | inSelect | inSelectInTable => rfl
      | _ =>
          rw [hm] at hmode
          exact absurd hmode Bool.false_ne_true
  | false =>
      exact look_foreign (isForeign_of_space (space_ne_of_not_readsHtml hreads) (.inl hreads)
        fun _ => rfl)

/-- A comment is put in its place. -/
theorem Still.look_comment (h : Still names b) (hmode : b.mode ≠ .inText ∧ b.mode ≠ .inTableText)
    (content : String) :
    b.look (.comment content) = .done (b.filled [.comment content] b.nextId b.formatting) := by
  rw [← h.insertItem]
  by_cases hspace : b.current.name.space = .html
  · rw [look_html (isForeign_of_html hspace _), Builder.inMode]
    cases hm : b.mode with
    | inText => exact absurd hm hmode.1
    | inTableText => exact absurd hm hmode.2
    | _ => rfl
  · exact look_foreign (isForeign_of_space hspace (.inr rfl) fun _ => rfl)

end Rules

section Accepting

variable {names : List Name} {b c : Builder} {t : Tag}

/-- What an admitted element is admitted as: the root of graphics or a formula, an element
    of a body, a part, or an element inside graphics or a formula. -/
theorem Ready.admits_cases (h : Ready names b) (hadmits : admits names t.name = true) :
    (b.isForeign (.startTag (tokenOf t)) = false ∧ readsHtml b.current.name = true ∧
      lowered t.name = t.name ∧
      (isFlow (modeFor names) = true ∧
          (t.name ∈ ["svg", "math"] ∨ admitsInBody names t.name = true) ∨
        admitsPart names t.name = true)) ∨
    (b.isForeign (.startTag (tokenOf t)) = true ∧ readsHtml b.current.name = false ∧
      admitsInForeign b.current.name.space t.name = true) := by
  rw [admits, h.innermost_names] at hadmits
  split at hadmits
  · rename_i hreads
    simp only [Bool.and_eq_true, Bool.or_eq_true, Bool.not_eq_true', Bool.and_eq_false_iff,
      beq_iff_eq, List.contains_iff_mem] at hadmits
    rcases hadmits with ⟨⟨hlowered, hglyph⟩, hadmits⟩
    refine .inl ⟨isForeign_of_readsHtml hreads rfl fun hformula => ?_, hreads, hlowered, hadmits⟩
    rw [hformula] at hglyph
    simpa [Token.starts, tokenOf, hlowered] using hglyph
  · rename_i hreads
    rw [Bool.not_eq_true] at hreads
    simp only [Bool.and_eq_true, Bool.not_eq_true', Bool.and_eq_false_iff,
      beq_eq_false_iff_ne] at hadmits
    refine .inr ⟨isForeign_of_space (space_ne_of_not_readsHtml hreads) (.inl hreads)
      fun hannotated => ?_, hreads, hadmits.1⟩
    -- An annotation does not admit graphics, so the exception does not come up.
    have hsvg := hadmits.2.resolve_left (not_not_intro hannotated)
    simpa [Token.starts, tokenOf] using hsvg

/-- The tags that begin graphics and formulas begin nothing else. -/
theorem startInBody_foreign (b : Builder) {tag : TagToken} {space : Namespace}
    (hname : tag.name = "svg" ∧ space = .svg ∨ tag.name = "math" ∧ space = .mathml)
    (hself : tag.selfClosing = false) :
    b.startInBody tag =
      b.openNamed ⟨space, tag.name⟩ (Foreign.attributesIn space tag.attributes) := by
  have hother : b.startOther tag = b.startForeign space tag.name tag := by
    rcases hname with ⟨hname, rfl⟩ | ⟨hname, rfl⟩
    · simp only [Builder.startOther, hname]
    · simp only [Builder.startOther, hname]
  have hsorted : tag.name ∉ sorted := by
    rcases hname with ⟨hname, _⟩ | ⟨hname, _⟩
    · rw [hname]
      decide
    · rw [hname]
      decide
  rw [startInBody_of_not_sorted b hsorted, hother, Builder.startForeign, hself]
  rfl

/-- A name outside HTML asks neither for a mode nor for a form, and is not remembered. -/
theorem foreign_spec {n : Name} (h : n.space ≠ .html) : n.isIn modal = false ∧
    n.isHtml "form" = false ∧ isFormatting n = false ∧ n.isIn marking = false := by
  have hspace : (n.space == Namespace.html) = false := beq_eq_false_iff_ne.2 h
  simp [Name.isIn, Name.isHtml, isFormatting, hspace]

/-- An element outside HTML is opened, and nothing else is done. -/
theorem Ready.openNamed_foreign (h : Ready names b) {n : Name} (hspace : n.space ≠ .html)
    (hchild : childName b.current.name t.name = n) (hskips : t.name ∉ skipping) :
    b.openNamed n (Foreign.attributesIn n.space (tokenOf t).attributes) =
      b.begun t b.formatting := by
  rcases foreign_spec hspace with ⟨hmodal, hform, _, _⟩
  have hskip : skipping.contains t.name = false :=
    Bool.eq_false_iff.2 fun hc => hskips (List.contains_iff_mem.1 hc)
  rw [h.openNamed hmodal hform, Builder.begun, hchild, hskip]
  simp only [Builder.entered, h.skipsLineFeed]

/-- A name that begins no graphics and no formula is one of HTML. -/
theorem childName_of_html (hreads : readsHtml b.current.name = true) {name : String}
    (hname : name ∉ ["svg", "math"]) : childName b.current.name name = .html name := by
  simp only [List.mem_cons, List.not_mem_nil, or_false, not_or] at hname
  rw [childName, if_pos hreads, if_neg hname.1, if_neg hname.2]

/-- An element of HTML begins where its tag is read by the rules of HTML. -/
theorem begun_of_html (hchild : childName b.current.name t.name = .html t.name)
    (hlowered : lowered t.name = t.name) (f : List Entry) :
    b.begun t f = b.opened (tokenOf t) f := by
  have hname : (tokenOf t).name = t.name := hlowered
  rw [Builder.begun, hchild, Builder.opened, hname]
  rfl

/-- The tags of elements that a body opens are read by the rules of the body, and only the
    end tag of a table is not. -/
theorem not_part_of_admitsInBody {name : String} (h : admitsInBody names name = true) :
    name ∉ ["svg", "math"] ∧ name ∉ ["body", "html", "tr"] ++ upperParts ++ cells := by
  have hall : ∀ n ∈ ["svg", "math"] ++ (["body", "html", "tr"] ++ upperParts ++ cells),
      n ∈ unopened := by decide
  simp only [admitsInBody, Bool.and_eq_true, Bool.not_eq_true', List.contains_eq_mem,
    decide_eq_false_iff_not] at h
  exact ⟨fun hmem => h.1.1 (hall _ (List.mem_append_left _ hmem)),
    fun hmem => h.1.1 (hall _ (List.mem_append_right _ hmem))⟩

/-- Of the elements that a body opens only tables and choices call for a mode. -/
theorem not_modal_of_admitsInBody {name : String} (h : admitsInBody names name = true)
    (htable : name ≠ "table") (hselect : name ≠ "select") : name ∉ modal := by
  have hall : ∀ n ∈ modal, n ∈ unopened ∨ n = "table" ∨ n = "select" := by decide
  simp only [admitsInBody, Bool.and_eq_true, Bool.not_eq_true', List.contains_eq_mem,
    decide_eq_false_iff_not] at h
  exact fun hmem => (hall _ hmem).elim h.1.1 (·.elim htable hselect)

/-- The rules of the body do not open templates. -/
theorem ne_template_of_admitsInBody {name : String} (h : admitsInBody names name = true) :
    name ≠ "template" := by
  have hmem : "template" ∈ unopened := by decide
  simp only [admitsInBody, Bool.and_eq_true, Bool.not_eq_true', List.contains_eq_mem,
    decide_eq_false_iff_not] at h
  rintro rfl
  exact h.1.1 hmem

/-- The start tags of most elements are no tags of parts. -/
theorem isPart_startTag {tag : TagToken}
    (h : tag.name ∉ ["body", "html", "tr"] ++ upperParts ++ cells) :
    (Token.startTag tag).isPart = false := by
  simp only [List.mem_append, not_or] at h
  simp only [Token.isPart, List.contains_eq_mem, decide_eq_false_iff_not, List.mem_append, not_or]
  exact ⟨⟨h.1.2, h.2⟩, fun hmem => h.1.1 (List.mem_cons_of_mem _ (List.mem_cons_of_mem _ hmem))⟩

/-- Nor are their end tags. -/
theorem isPart_endTag {name : String} (h : name ∉ ["body", "html", "tr"] ++ upperParts ++ cells)
    (htable : name ≠ "table") : (Token.endTag name).isPart = false := by
  simp only [List.mem_append, List.mem_cons, List.not_mem_nil, or_false, not_or] at h
  simp only [Token.isPart, List.contains_eq_mem, decide_eq_false_iff_not, List.mem_append,
    List.mem_cons, List.not_mem_nil, or_false, not_or]
  exact ⟨⟨⟨h.1.1.1, h.1.1.2.1, htable, h.1.1.2.2⟩, h.1.2⟩, h.2⟩

/-- Graphics and formulas begin with an element of their own. -/
theorem childName_of_root {parent : Name} (hreads : readsHtml parent = true) {name : String}
    (hmem : name ∈ ["svg", "math"]) :
    ∃ space, (name = "svg" ∧ space = .svg ∨ name = "math" ∧ space = .mathml) ∧
      space ≠ .html ∧ childName parent name = ⟨space, name⟩ := by
  simp only [List.mem_cons, List.not_mem_nil, or_false] at hmem
  rcases hmem with rfl | rfl
  · exact ⟨.svg, .inl ⟨rfl, rfl⟩, Namespace.noConfusion,
      by rw [childName, if_pos hreads, if_pos rfl]⟩
  · exact ⟨.mathml, .inr ⟨rfl, rfl⟩, Namespace.noConfusion,
      by rw [childName, if_pos hreads, if_neg (by decide), if_pos rfl]⟩

/-- Elements inside graphics and formulas are opened under the name they are spelled by. -/
theorem Ready.look_startTag_foreign (h : Ready names b)
    (hforeign : b.isForeign (.startTag (tokenOf t)) = true)
    (hreads : readsHtml b.current.name = false)
    (hadmits : admitsInForeign b.current.name.space t.name = true) :
    b.look (.startTag (tokenOf t)) = .done (b.begun t b.formatting) := by
  simp only [admitsInForeign, Bool.and_eq_true, Bool.not_eq_true', bne_iff_ne, ne_eq,
    beq_iff_eq] at hadmits
  rcases hadmits with ⟨⟨⟨hbreakout, hfont⟩, hspelled⟩, _⟩
  have hinside : breaksOut (.startTag (tokenOf t)) = false := by
    simp only [breaksOut, tokenOf, hbreakout, beq_eq_false_iff_ne.2 hfont, Bool.false_and,
      Bool.or_self]
  have hchild : childName b.current.name t.name = ⟨b.current.name.space, t.name⟩ := by
    rw [childName, hreads, if_neg Bool.false_ne_true]
  have hskips : t.name ∉ skipping := by
    have hall : ∀ n ∈ skipping, breakouts.contains (lowered n) = true := by decide +kernel
    exact fun hmem => absurd (hall _ hmem) (by rw [hbreakout]; decide)
  have hdone : b.startInForeign (tokenOf t) = b.openNamed ⟨b.current.name.space, t.name⟩
      (Foreign.attributesIn b.current.name.space (tokenOf t).attributes) := by
    simp only [Builder.startInForeign, Builder.startForeign]
    rw [show (tokenOf t).name = lowered t.name from rfl, hspelled]
    rfl
  have hspace : (⟨b.current.name.space, t.name⟩ : Name).space ≠ .html :=
    space_ne_of_not_readsHtml (n := b.current.name) hreads
  rw [look_foreign hforeign, Builder.inForeign, hinside, if_neg Bool.false_ne_true]
  simp only [hdone]
  exact congrArg Outcome.done (h.openNamed_foreign hspace hchild hskips)

/-- The start tag of an admitted element opens it. -/
theorem Ready.exists_begun (h : Ready names b) (hadmits : admits names t.name = true) :
    ∃ f, f.Sublist (b.remembering (childName b.current.name t.name) (tokenOf t)) ∧
      b.look (.startTag (tokenOf t)) = .done (b.begun t f) := by
  have hsub := formatting_sublist_remembering b (childName b.current.name t.name) (tokenOf t)
  rcases h.admits_cases hadmits with
    ⟨hhtml, hreads, hlowered, hadmits⟩ | ⟨hforeign, hreads, hadmits⟩
  · have hname : (tokenOf t).name = t.name := hlowered
    -- The root of graphics or a formula, an element of a body, and a part have a rule each.
    rcases hadmits with ⟨hflow, hroot | hbody⟩ | hpart
    · rcases childName_of_root hreads hroot with ⟨space, hspace, hforeign, hchild⟩
      have hall : ∀ n ∈ ["svg", "math"], n ∉ skipping ∧
          n ∉ ["body", "html", "tr"] ++ upperParts ++ cells := by decide
      refine ⟨_, hsub, ?_⟩
      rw [h.look_flow hflow hhtml (isPart_startTag (hname.symm ▸ (hall _ hroot).2)),
        Builder.acceptInBody, startInBody_foreign b (hname.symm ▸ hspace) rfl, hname]
      exact congrArg Outcome.done (h.openNamed_foreign hforeign hchild (hall _ hroot).1)
    · rcases not_part_of_admitsInBody hbody with ⟨hroot, hpart⟩
      have hchild := childName_of_html hreads hroot
      have hadmitted : admitsInBody names (tokenOf t).name = true := by rw [hname]; exact hbody
      rcases h.startInBody hflow hadmitted with ⟨f, hf, hstart⟩
      rw [hname] at hf
      refine ⟨f, by rw [hchild]; exact hf, ?_⟩
      rw [h.look_flow hflow hhtml (isPart_startTag (hname.symm ▸ hpart)), Builder.acceptInBody,
        hstart, begun_of_html hchild hlowered]
    · have hall : ∀ n ∈ parts, n ∉ ["svg", "math"] := by decide
      have hchild := childName_of_html hreads (hall _ (mem_parts_of_admitsPart hpart))
      have hadmitted : admitsPart names (tokenOf t).name = true := by rw [hname]; exact hpart
      rcases h.startPart hadmitted with ⟨f, hf, hstart⟩
      rw [hname] at hf
      refine ⟨f, by rw [hchild]; exact hf, ?_⟩
      rw [hstart, begun_of_html hchild hlowered]
  · exact ⟨_, hsub, h.look_startTag_foreign hforeign hreads hadmits⟩

/-- The end tag of an element of graphics or a formula closes it if the names agree but
    for the case of letters. -/
theorem look_endTag_foreign {o : Opened} {os : List Opened} (hstack : c.stack = o :: os)
    (hos : os ≠ []) (hspace : o.name.space ≠ .html) {name : String}
    (hinside : breaksOut (.endTag name) = false) (hname : o.name.localName.toLower = name) :
    c.look (.endTag name) = .done { c with stack := os } := by
  have hcurrent : c.current.name.space ≠ .html := by rwa [current_of_stack hstack]
  -- There is an element below the innermost one, so it is closed and not only ignored.
  have hend : foreignEnd name true c.stack = .closed os := by
    cases os with
    | nil => exact absurd rfl hos
    | cons o' os =>
        rw [hstack, foreignEnd, if_neg (by simp), hname, if_pos (beq_self_eq_true _)]
        exact fun hnil => absurd hnil (List.cons_ne_nil _ _)
  rw [look_foreign (isForeign_of_space hcurrent (.inr rfl) fun _ => rfl), Builder.inForeign,
    hinside, if_neg Bool.false_ne_true]
  simp only [hend]

/-- Outside an element of graphics or a formula nothing has changed but the list. -/
theorem Ready.exists_left_foreign (hb : Ready names b) {n : Name} (h : Ready (n :: names) c)
    (hspace : n.space ≠ .html) (hstack : c.stack = ⟨b.nextId, n⟩ :: b.stack) {tag : TagToken}
    (hlist : c.formatting.Sublist (b.remembering n tag)) {name : String}
    (hinside : breaksOut (.endTag name) = false) (hname : n.localName.toLower = name) :
    ∃ f, f.Sublist b.formatting ∧ c.look (.endTag name) =
      .done { c with stack := b.stack, mode := b.mode, form := b.form, formatting := f } := by
  rcases foreign_spec hspace with ⟨hmodal, hform, hformatting, hmarking⟩
  -- Graphics and formulas have no modes, so the mode is still that of the elements around.
  have hmode : c.mode = b.mode := by
    rw [h.mode, modeFor_cons_of_not_modal hb.names_ne_nil hmodal, hb.mode]
  rw [remembering_of_plain hformatting hmarking] at hlist
  refine ⟨_, hlist, ?_⟩
  rw [look_endTag_foreign hstack hb.nonempty hspace hinside hname, ← hmode,
    ← hb.toStill.form_eq h.toStill hstack hform]

/-- The end tag of an element that a body opened closes it, by the rules of the body unless
    it is a table or a choice. -/
theorem Ready.exists_left_body (hb : Ready names b) (hflow : isFlow (modeFor names) = true)
    {name : String} (hbody : admitsInBody names name = true) (h : Ready (.html name :: names) c)
    (hstack : c.stack = ⟨b.nextId, .html name⟩ :: b.stack)
    (htemplates : c.templateModes = b.templateModes) {tag : TagToken} (hname : tag.name = name)
    (hlist : c.formatting.Sublist (b.remembering (.html name) tag)) :
    ∃ f, f.Sublist b.formatting ∧ c.look (.endTag name) =
      .done { c with stack := b.stack, mode := b.mode, form := b.form, formatting := f } := by
  have hhtml : c.isForeign (.endTag name) = false :=
    isForeign_of_html (by rw [current_of_stack hstack]; rfl) _
  have hmode := h.mode
  -- Behind a table or a choice the mode is found again from the open elements; everywhere else it
  -- has stayed the same.
  by_cases htable : name = "table"
  · rw [htable] at h hstack hlist hmode ⊢
    rw [remembering_of_plain (by decide) (by decide)] at hlist
    refine ⟨_, hlist, ?_⟩
    rw [modeFor_cons hb.names_ne_nil] at hmode
    rw [← htable, look_html hhtml, htable,
      endTable_of_stack hb hmode hstack rfl htemplates,
      ← hb.toStill.form_eq h.toStill hstack rfl]
  by_cases hselect : name = "select"
  · rw [hselect] at h hstack hlist hmode ⊢
    rw [remembering_of_plain (by decide) (by decide)] at hlist
    refine ⟨_, hlist, ?_⟩
    rw [modeFor_cons hb.names_ne_nil] at hmode
    have hcases := selectMode_cases (unnumbered names)
    rw [← hselect, look_html hhtml, hselect,
      endSelect_of_stack hb (hmode ▸ hcases) hstack rfl htemplates,
      ← hb.toStill.form_eq h.toStill hstack rfl]
  · have hmodal : (Name.html name).isIn modal = false := by
      simpa [Name.isIn, Name.html] using not_modal_of_admitsInBody hbody htable hselect
    rw [modeFor_cons_of_not_modal hb.names_ne_nil hmodal] at hmode
    have hinside : isFlow (modeFor (.html name :: names)) = true := by
      rwa [modeFor_cons_of_not_modal hb.names_ne_nil hmodal]
    rcases hb.endInBody hbody h rfl rfl hstack hname hlist with ⟨f, hf, hend⟩
    refine ⟨f, hf, ?_⟩
    rw [h.look_flow hinside hhtml (isPart_endTag (not_part_of_admitsInBody hbody).2 htable),
      Builder.acceptInBody, hend, hb.mode, ← hmode]

/-- The end tag of an admitted element closes it. -/
theorem Ready.exists_left (hb : Ready names b) (hadmits : admits names t.name = true)
    (h : Ready (childName b.current.name t.name :: names) c)
    (hstack : c.stack = ⟨b.nextId, childName b.current.name t.name⟩ :: b.stack)
    (htemplates : c.templateModes = b.templateModes)
    (hlist : c.formatting.Sublist
      (b.remembering (childName b.current.name t.name) (tokenOf t))) :
    ∃ f, f.Sublist b.formatting ∧ c.look (.endTag (lowered t.name)) =
      .done { c with stack := b.stack, mode := b.mode, form := b.form, formatting := f } := by
  rcases hb.admits_cases hadmits with ⟨hhtml, hreads, hlowered, hadmits⟩ | ⟨_, hreads, hadmits⟩
  · rw [hlowered]
    rcases hadmits with ⟨hflow, hroot | hbody⟩ | hpart
    · rcases childName_of_root hreads hroot with ⟨space, hspace, hforeign, hchild⟩
      have hall : ∀ n ∈ ["svg", "math"], breaksOut (.endTag n) = false ∧ n.toLower = n := by
        decide +kernel
      rw [hchild] at h hstack hlist
      exact hb.exists_left_foreign h hforeign hstack hlist (hall _ hroot).1 (hall _ hroot).2
    · have hchild := childName_of_html hreads (not_part_of_admitsInBody hbody).1
      rw [hchild] at h hstack hlist
      exact hb.exists_left_body hflow hbody h hstack htemplates hlowered hlist
    · have hall : ∀ n ∈ parts, n ∉ ["svg", "math"] ∧ isFormatting (.html n) = false ∧
          (Name.html n).isHtml "form" = false := by decide
      rcases hall _ (mem_parts_of_admitsPart hpart) with ⟨hroot, hformatting, hform⟩
      have hchild := childName_of_html hreads hroot
      rw [hchild] at h hstack hlist
      have hhtml : c.isForeign (.endTag t.name) = false :=
        isForeign_of_html (by rw [current_of_stack hstack]; rfl) _
      -- Parts may have set a mark, which their end tag takes away.
      refine ⟨_, unmarked_sublist hlist hformatting, ?_⟩
      rw [look_html hhtml, hb.endPart hpart h hstack rfl,
        ← hb.toStill.form_eq h.toStill hstack hform]
  · have hchild : childName b.current.name t.name = ⟨b.current.name.space, t.name⟩ := by
      rw [childName, hreads, if_neg Bool.false_ne_true]
    rw [hchild] at h hstack hlist
    simp only [admitsInForeign, Bool.and_eq_true, Bool.not_eq_true', beq_iff_eq] at hadmits
    rcases hadmits with ⟨⟨⟨hbreakout, _⟩, _⟩, htoLower⟩
    have hinside : breaksOut (.endTag (lowered t.name)) = false := by
      -- An end tag breaks out of foreign content only if the start tag would have.
      have hsub : ∀ n ∈ ["br", "p"], n ∈ breakouts := by decide
      rw [List.contains_eq_mem, decide_eq_false_iff_not] at hbreakout
      rw [breaksOut, List.contains_eq_mem, decide_eq_false_iff_not]
      exact fun hmem => hbreakout (hsub _ hmem)
    have hspace : (⟨b.current.name.space, t.name⟩ : Name).space ≠ .html :=
      space_ne_of_not_readsHtml (n := b.current.name) hreads
    exact hb.exists_left_foreign h hspace hstack hlist hinside htoLower

/-- In a body the tag of such an element puts it in its place, some of them after formatting
elements have been opened again. -/
theorem startInBody_voidAnywhere (b : Builder) {tag : TagToken} (h : tag.name ∈ voidAnywhere) :
    b.startInBody tag = b.reopenFormatting.insertVoid tag ∨
      b.startInBody tag = b.insertVoid tag := by
  rcases tag with ⟨name, attributes, selfClosing⟩
  simp only [voidAnywhere, List.mem_cons, List.not_mem_nil, or_false] at h
  rcases h with rfl | rfl | rfl | rfl | rfl | rfl | rfl | rfl | rfl | rfl | rfl
  case inl | inr.inl | inr.inr.inl | inr.inr.inr.inl | inr.inr.inr.inr.inl |
      inr.inr.inr.inr.inr.inl => exact .inl rfl
  all_goals exact .inr rfl

/-- An element that holds nothing is only put in its place in a body. -/
theorem Ready.startVoid (h : Ready names b) {tag : TagToken}
    (hvoid : tag.name ∈ voidAnywhere ∨ tag.name = "hr" ∧ inParagraph names = false) :
    b.startInBody tag = b.insertVoid tag := by
  rcases hvoid with hmem | ⟨hname, hparagraph⟩
  · rcases startInBody_voidAnywhere b hmem with hstart | hstart
    · rw [hstart, h.reopenFormatting]
    · exact hstart
  · have hother : b.startOther tag = b.endParagraph.insertVoid tag := by
      simp only [Builder.startOther, hname]
    rw [startInBody_of_not_sorted b (by rw [hname]; decide), hother, h.endParagraph hparagraph]

/-- So is a rule between the options of a choice. -/
theorem Ready.startRule (h : Ready names b) {tag : TagToken} (hname : tag.name = "hr")
    (hinner : (innermost names).isHtml "select" = true) :
    b.startInSelect tag = .done (b.insertVoid tag) := by
  rw [h.innermost_names, Name.isHtml, Bool.and_eq_true, beq_iff_eq, beq_iff_eq] at hinner
  have hoption : b.endOption = b := by
    rw [Builder.endOption, Builder.currentIs, Name.isHtml, hinner.1, hinner.2]
    rfl
  have hgroup : b.endGroup = b := by
    rw [Builder.endGroup, Builder.currentIs, Name.isHtml, hinner.1, hinner.2]
    rfl
  simp only [Builder.startInSelect, hname, hoption, hgroup]

/-- What is admitted as holding nothing has one of a few names, in HTML. -/
theorem mem_of_admitsVoid {name : String} (h : admitsVoid names name = true) :
    readsHtml (innermost names) = true ∧ lowered name = name ∧
      name ∈ "hr" :: "col" :: voidAnywhere := by
  simp only [admitsVoid, Bool.and_eq_true, Bool.or_eq_true, beq_iff_eq, List.contains_iff_mem] at h
  rcases h with ⟨⟨hlowered, hreads⟩, hcases⟩
  refine ⟨hreads, hlowered, ?_⟩
  rcases hcases with (⟨_, hmem | ⟨rfl, _⟩⟩ | ⟨_, rfl⟩) | ⟨⟨_, rfl⟩, _⟩
  · exact List.mem_cons_of_mem _ (List.mem_cons_of_mem _ hmem)
  · exact List.mem_cons_self
  · exact List.mem_cons_of_mem _ List.mem_cons_self
  · exact List.mem_cons_self

/-- An element that holds nothing is an element of HTML. -/
theorem childName_of_admitsVoid {name : String} (h : admitsVoid names name = true) :
    childName (innermost names) name = .html name := by
  have hall : ∀ n ∈ "hr" :: "col" :: voidAnywhere, n ≠ "svg" ∧ n ≠ "math" := by decide
  rcases mem_of_admitsVoid h with ⟨hreads, _, hmem⟩
  rw [childName, if_pos hreads, if_neg (hall _ hmem).1, if_neg (hall _ hmem).2]

/-- An element that holds nothing is only put in its place. -/
theorem Ready.look_void (h : Ready names b) (hadmits : admitsVoid names t.name = true) :
    b.look (.startTag (tokenOf t)) =
      .done (b.filled [.element b.nextId (.html t.name)
        (Foreign.attributesIn .html (tokenOf t).attributes) []] (b.nextId + 1) b.formatting) := by
  rcases mem_of_admitsVoid hadmits with ⟨hreads, hlowered, hmem⟩
  have hname : (tokenOf t).name = t.name := hlowered
  have hinsert : b.insertVoid (tokenOf t) = b.filled [.element b.nextId (.html t.name)
      (Foreign.attributesIn .html (tokenOf t).attributes) []] (b.nextId + 1) b.formatting := by
    rw [Builder.insertVoid, h.insertElement, hname]
  have hall : ∀ n ∈ "hr" :: "col" :: voidAnywhere, n ∉ glyphs ∧ n ∉ selectEnders ∧
      (n ≠ "col" → n ∉ ["body", "html", "tr"] ++ upperParts ++ cells) := by decide
  rcases hall _ hmem with ⟨hglyph, hender, hpart⟩
  have hhtml : b.isForeign (.startTag (tokenOf t)) = false :=
    isForeign_of_readsHtml (h.innermost_names ▸ hreads) rfl fun _ => by
      simpa [Token.starts, hname] using hglyph
  simp only [admitsVoid, Bool.and_eq_true, Bool.or_eq_true, Bool.not_eq_true',
    beq_iff_eq, List.contains_iff_mem] at hadmits
  rw [← hinsert]
  -- In a body, in a group of columns and in a choice different rules put it in its place.
  rcases hadmits.2 with (⟨hflow, hbody⟩ | ⟨hmode, hcol⟩) | ⟨⟨hmode, hrule⟩, hinner⟩
  · have hcol : (tokenOf t).name ≠ "col" := by
      rw [hname]
      rcases hbody with hmem | ⟨hrule, _⟩
      · exact fun hcol => absurd (hcol ▸ hmem) (by decide)
      · exact fun hcol => absurd (hcol.symm.trans hrule) (by decide)
    rw [h.look_flow hflow hhtml (isPart_startTag (by rw [hname] at hcol ⊢; exact hpart hcol)),
      Builder.acceptInBody, h.startVoid (by rw [hname]; exact hbody)]
  · rw [look_html hhtml, Builder.inMode, h.mode, hmode]
    simp only [Builder.inColumnGroup, hname, hcol]
    rfl
  · have hstart : b.startInSelect (tokenOf t) = .done (b.insertVoid (tokenOf t)) :=
      h.startRule (hname.trans hrule) hinner
    -- A rule does not end a choice in a table either.
    have hoption : selectEnders.contains (tokenOf t).name = false := by
      rw [hname]
      exact Bool.eq_false_iff.2 fun hc => hender (List.contains_iff_mem.1 hc)
    rw [look_html hhtml, Builder.inMode, h.mode]
    simp only [List.mem_cons, List.not_mem_nil, or_false] at hmode
    rcases hmode with hmode | hmode
    · rw [hmode]
      exact hstart
    · rw [hmode]
      simp only [Builder.inSelectInTable, hoption, Bool.false_eq_true, if_false]
      exact hstart

end Accepting

end Html

end SoleRoot

import SoleRoot.Proofs.Faithful.Rereading
import SoleRoot.Proofs.Html.Hollow
import SoleRoot.Proofs.Html.TextElements

/-!
# Reading Written HTML

Nodes that are read as they were written.

`fits` decides this of a node from the names of the open elements. Its tags must be
cut as they are. Then there are four kinds of elements: those that hold nothing, those
that hold text only, those that are left empty, and those whose start tag opens an element
and does nothing else, so that what is inside must fit there.

What is written of such a node leads from one state
between two nodes to another, in which the node's item has been put into the
innermost element. The induction is over the node, for all open elements and for
any text that follows.

Only white space in a table and scripts are asked what follows them. There it matters that the
end tag of the element around them or the next node is markup, and `mayPrecede` excludes
texts.

## Main definitions

* `fits`, `fitsAll`: Whether a node or a list of nodes is read as it was written.

## Theorems

* `Ready.continues`: A node that fits and is no text begins with markup.
* `Ready.exists_grow_write`: A node that fits is put in its place.
* `read_writeAll`: Reading nodes that fit.
-/

namespace SoleRoot

namespace Html

open Builder

/-- Whether the first of some nodes is a text that starts with a line feed. -/
def startsLine : List Node → Bool
  | .text content :: _ => content.toList.head? == some '\n'
  | _ => false

/-- Whether a node is a script inside the open elements `names`. Graphics and formulas have no
    scripts of their own. -/
def isScript (names : List Name) : Node → Bool
  | .element tag _ => tag.name == "script" && readsHtml (innermost names)
  | _ => false

/-- Whether a node is a text that starts with a byte order mark. -/
def startsMarked : Node → Bool
  | .text content => content.toList.head? == some '\uFEFF'
  | _ => false

/-- Whether a node may stand in front of another. White space that waits would join a text, and
    behind a script a byte order mark does not count. -/
def mayPrecede (names : List Name) (n m : Node) : Bool :=
  (takesText (modeFor names) || !(Faithful.isTextNode n && Faithful.isTextNode m)) &&
    !(isScript names n && startsMarked m)

mutual

/-- Whether a node is read as it was written, inside the open elements `names`.
    `raw` says whether text is written without escapes. -/
def fits (raw : Bool) (names : List Name) : Node → Bool
  | .element tag children =>
    decide (Writable tag) &&
      if voidNames.contains tag.name then admitsVoid names tag.name && children.isEmpty
      else
        admitsText names tag.name && fitsAsText tag.name children ||
          admitsHollow names tag.name && children.isEmpty ||
          admits names tag.name && !(skipping.contains tag.name && startsLine children) &&
            fitsAll (rawNames.contains tag.name) (childName (innermost names) tag.name :: names)
              children
  | .text content => fitsText raw names content.toList
  | .comment content => decide (Closeable content.toList)
  | .cdata _ => false

/-- Whether all nodes of a list are read as they were written. -/
def fitsAll (raw : Bool) (names : List Name) : List Node → Bool
  | [] => true
  | n :: ns => fits raw names n && fitsAll raw names ns && ns.head?.all (mayPrecede names n)

end

section Beginnings

variable {names : List Name} {b c : Builder} {t : Tag} {children : List Node} {raw : Bool}

/-- What is written of an element that is not void, in front of other text. -/
theorem write_element_append (raw : Bool) (children : List Node)
    (hvoid : voidNames.contains t.name = false) (rest : List Char) :
    write raw (.element t children) ++ rest =
      startTag t ++ '>' ::
        (writeAll (rawNames.contains t.name) children ++ (endTag t ++ rest)) := by
  rw [write, if_neg (by rw [hvoid]; decide)]
  simp only [List.append_assoc, List.cons_append]

theorem begins_element (raw : Bool) (children : List Node) (hwritable : Writable t)
    (rest : List Char) :
    Begins (write raw (.element t children) ++ rest) (.startTag (tokenOf t)) := by
  rw [write]
  split
  · rw [List.append_assoc, List.singleton_append]
    exact begins_startTag hwritable rest
  · simp only [List.append_assoc, List.cons_append]
    exact begins_startTag hwritable _

theorem head?_write_element (raw : Bool) (t : Tag) (children : List Node) :
    (write raw (.element t children)).head? = some '<' := by
  rw [write]
  split
  · simp [startTag]
  · simp [startTag]

/-- The four kinds of elements that fit. -/
theorem fits_element_cases (h : fits raw names (.element t children) = true) :
    Writable t ∧
      (voidNames.contains t.name = true ∧ admitsVoid names t.name = true ∧ children = [] ∨
        voidNames.contains t.name = false ∧
          (admitsText names t.name = true ∧ fitsAsText t.name children = true ∨
            admitsHollow names t.name = true ∧ children = [] ∨
            admits names t.name = true ∧
              (skipping.contains t.name = true → startsLine children = false) ∧
              fitsAll (rawNames.contains t.name) (childName (innermost names) t.name :: names)
                children = true)) := by
  rw [fits, Bool.and_eq_true, decide_eq_true_eq] at h
  rcases h with ⟨hwritable, hkind⟩
  refine ⟨hwritable, ?_⟩
  split at hkind
  · rename_i hvoid
    rw [Bool.and_eq_true, List.isEmpty_iff] at hkind
    exact .inl ⟨hvoid, hkind⟩
  · rename_i hvoid
    simp only [Bool.or_eq_true, Bool.and_eq_true, Bool.not_eq_true', Bool.and_eq_false_iff,
      List.isEmpty_iff] at hkind
    refine .inr ⟨Bool.eq_false_iff.2 hvoid, ?_⟩
    rcases hkind with (htext | hhollow) | ⟨⟨hadmits, hline⟩, hchildren⟩
    · exact .inl htext
    · exact .inr (.inl hhollow)
    · exact .inr (.inr ⟨hadmits, fun hskips => hline.resolve_left (by rw [hskips]; decide),
        hchildren⟩)

/-- What is written of a node that fits begins with a piece of it, from which no line feed is
    left out. -/
theorem exists_begins_write {n : Node} (hfits : fits raw names n = true)
    (hline : startsLine [n] = false) (rest : List Char) :
    ∃ u, Begins (write raw n ++ rest) u ∧ withoutLineFeed u = some u := by
  cases n with
  | element tag children =>
      exact ⟨_, begins_element raw children (fits_element_cases hfits).1 rest, rfl⟩
  | text content =>
      rw [fits, fitsText] at hfits
      simp only [Bool.and_eq_true, decide_eq_true_eq] at hfits
      exact exists_begins_text hfits.1.1.1 hfits.1.1.2 hfits.1.2 (beq_eq_false_iff_ne.1 hline) rest
  | comment content =>
      rw [fits, decide_eq_true_eq] at hfits
      exact ⟨_, begins_comment hfits rest, rfl⟩
  | cdata content =>
      rw [fits] at hfits
      exact absurd hfits Bool.false_ne_true

/-- What is written of a node that fits starts with a byte order mark only if it is a text
    that does. -/
theorem head?_write_ne {n : Node} (hfits : fits raw names n = true)
    (hmarked : startsMarked n = false) (rest : List Char) :
    (write raw n ++ rest).head? ≠ some '\uFEFF' := by
  cases n with
  | element tag children =>
      rw [List.head?_append, head?_write_element]
      simp
  | text content =>
      rw [fits, fitsText] at hfits
      simp only [Bool.and_eq_true, decide_eq_true_eq] at hfits
      rw [startsMarked, beq_eq_false_iff_ne] at hmarked
      rw [write]
      cases hcontent : content.toList with
      | nil => exact absurd hcontent hfits.1.1.1
      | cons c cs =>
          rw [hcontent] at hmarked
          split
          · exact hmarked
          rw [escapeText, List.flatMap_cons, List.append_assoc]
          -- An escape starts with an ampersand, and any other character is the one in the text.
          rcases escapeTextChar_cases c with ⟨_, _, hescape, _⟩ | ⟨_, _, _, hescape⟩
          · rw [hescape]
            simp
          · rw [hescape]
            exact hmarked
  | comment content => simp [write, writeComment]
  | cdata content =>
      rw [fits] at hfits
      exact absurd hfits Bool.false_ne_true

/-- A line feed that is to be left out does not matter if a piece comes that does not start
    with one. -/
theorem Still.grow_skipping (h : Still names b) {cs : List Char} {u : Token}
    (hbegins : Begins cs u) (hu : withoutLineFeed u = some u) :
    grow { b with skipsLineFeed := true } cs = grow b cs := by
  rcases hbegins with ⟨c, ds, rest, rfl, hnext⟩
  have hpiece : next b.reading b.currentIsForeign c ds = ⟨[u], rest, false⟩ := by
    rw [h.reading]
    exact hnext _
  exact Html.grow_skipping h.skipsLineFeed hpiece hu

/-- The start tag of an element that fits is read in one look. -/
theorem Ready.exists_look_startTag (h : Ready names b)
    (hfits : fits raw names (.element t children) = true) :
    ∃ c, b.look (.startTag (tokenOf t)) = .done c := by
  -- Each kind has its own rule, and none of them asks for a second look.
  rcases fits_element_cases hfits with
    ⟨_, ⟨_, hvoid, _⟩ | ⟨_, ⟨htext, _⟩ | ⟨hhollow, _⟩ | ⟨hadmits, _⟩⟩⟩
  · exact ⟨_, h.look_void hvoid⟩
  · exact ⟨_, h.look_startText htext⟩
  · have hname : (tokenOf t).name = t.name := (admitsHollow_spec hhollow).1
    rcases admitsHollow_cases hhollow with ⟨htemplate, hreads⟩ | ⟨hmem, hspace, hflow, _⟩
    · rw [h.innermost_names] at hreads
      exact ⟨_, h.look_startTemplate hreads (hname.trans htemplate)⟩
    · rw [h.innermost_names] at hspace
      exact ⟨_, h.look_idle (hname.symm ▸ hmem) hspace hflow⟩
  · rcases h.exists_begun hadmits with ⟨f, _, hlook⟩
    exact ⟨_, hlook⟩

theorem isScript_of_admitsText (h : admitsText names t.name = true) (hname : t.name = "script") :
    isScript names (.element t children) = true := by
  simp only [admitsText, Bool.and_eq_true] at h
  rw [isScript, hname, h.1.2]
  rfl

theorem Ready.mode_ne (h : Ready names b) : b.mode ≠ .inText ∧ b.mode ≠ .inTableText := by
  rw [h.mode]
  exact modeFor_ne names

/-- A node that fits and is no text begins with markup. -/
theorem Ready.continues (h : Ready names b) {n : Node} (hfits : fits raw names n = true)
    (hn : Faithful.isTextNode n = false) (rest : List Char) :
    Continues b (write raw n ++ rest) := by
  cases n with
  | element tag children =>
      rcases h.exists_look_startTag hfits with ⟨c, hlook⟩
      exact ⟨_, c, begins_element raw children (fits_element_cases hfits).1 rest, rfl, hlook⟩
  | text content => exact absurd hn (by simp [Faithful.isTextNode])
  | comment content =>
      rw [fits, decide_eq_true_eq] at hfits
      exact ⟨_, _, begins_comment hfits rest, rfl, h.look_comment h.mode_ne content⟩
  | cdata content =>
      rw [fits] at hfits
      exact absurd hfits Bool.false_ne_true

/-- Behind a script no byte order mark is written, neither by the next node nor by what
    follows the last one. -/
theorem unmarked_writeAll {n : Node} {ns : List Node} (hns : fitsAll raw names ns = true)
    (hprecede : ns.head?.all (mayPrecede names n) = true) (hscript : isScript names n = true)
    {rest : List Char} (hmark : rest.head? ≠ some '\uFEFF') :
    (writeAll raw ns ++ rest).head? ≠ some '\uFEFF' := by
  cases ns with
  | nil =>
      rw [writeAll]
      exact hmark
  | cons m ms =>
      rw [fitsAll, Bool.and_eq_true, Bool.and_eq_true] at hns
      rw [List.head?_cons, Option.all_some, mayPrecede, hscript, Bool.true_and,
        Bool.and_eq_true, Bool.not_eq_true'] at hprecede
      rw [writeAll, List.append_assoc]
      exact head?_write_ne hns.1.1 hprecede.2 _

/-- Behind white space that waits in a table there is markup: the next node, or what
    follows the last one. -/
theorem Ready.continues_writeAll (h : Ready names b) {n : Node} {ns : List Node}
    (hns : fitsAll raw names ns = true) (hprecede : ns.head?.all (mayPrecede names n) = true)
    (htext : Faithful.isTextNode n = true) (hmode : takesText (modeFor names) = false)
    {rest : List Char} (hrest : ns = [] → Continues b rest) :
    Continues b (writeAll raw ns ++ rest) := by
  cases ns with
  | nil =>
      rw [writeAll]
      exact hrest rfl
  | cons m ms =>
      rw [fitsAll, Bool.and_eq_true, Bool.and_eq_true] at hns
      rw [List.head?_cons, Option.all_some, mayPrecede, hmode, htext, Bool.false_or,
        Bool.true_and, Bool.and_eq_true, Bool.not_eq_true'] at hprecede
      rw [writeAll, List.append_assoc]
      exact h.continues hns.1.1 hprecede.1 _

end Beginnings

section Nodes

variable {names : List Name} {b c : Builder} {t : Tag} {raw : Bool}

/-- No element that is admitted by the rules for bodies and parts is a template. -/
theorem Ready.childName_ne_template (h : Ready names b) (hadmits : admits names t.name = true) :
    (childName b.current.name t.name).isIn ["template"] = false := by
  rcases h.admits_cases hadmits with ⟨_, hreads, _, ⟨_, hroot | hbody⟩ | hpart⟩ | ⟨_, hreads, _⟩
  · rcases childName_of_root hreads hroot with ⟨space, _, hforeign, hchild⟩
    rw [hchild, Name.isIn, beq_eq_false_iff_ne.2 hforeign, Bool.false_and]
  · rw [childName_of_html hreads (not_part_of_admitsInBody hbody).1]
    simpa [Name.isIn, Name.html] using ne_template_of_admitsInBody hbody
  · have hall : ∀ n ∈ parts, n ∉ ["svg", "math"] ∧ n ≠ "template" := by decide
    rcases hall _ (mem_parts_of_admitsPart hpart) with ⟨hroot, hne⟩
    rw [childName_of_html hreads hroot]
    simpa [Name.isIn, Name.html] using hne
  · rw [childName, hreads, if_neg Bool.false_ne_true, Name.isIn,
      beq_eq_false_iff_ne.2 (space_ne_of_not_readsHtml hreads), Bool.false_and]

/-- Inside a new element it is as if nothing were to be left out. -/
theorem Ready.grow_begun {names' : List Name} {f : List Entry}
    {children : List Node}
    (h : Ready names' (b.entered (childName b.current.name t.name)
      (Foreign.attributesIn (childName b.current.name t.name).space (tokenOf t).attributes) f))
    (hname : isTagName t.name.toList = true)
    (hline : skipping.contains t.name = true → startsLine children = false)
    (hfits : fitsAll raw names' children = true) (rest : List Char) :
    grow (b.begun t f) (writeAll raw children ++ (endTag t ++ rest)) =
      grow (b.entered (childName b.current.name t.name)
        (Foreign.attributesIn (childName b.current.name t.name).space (tokenOf t).attributes) f)
        (writeAll raw children ++ (endTag t ++ rest)) := by
  -- What comes first is a node that fits or the end tag.
  have hbegins (hskips : skipping.contains t.name = true) :
      ∃ u, Begins (writeAll raw children ++ (endTag t ++ rest)) u ∧ withoutLineFeed u = some u := by
    cases children with
    | nil =>
        rw [writeAll]
        exact ⟨_, begins_endTag hname rest, rfl⟩
    | cons n ns =>
        rw [fitsAll, Bool.and_eq_true, Bool.and_eq_true] at hfits
        rw [writeAll, List.append_assoc]
        refine exists_begins_write hfits.1.1 ?_ _
        have hfirst := hline hskips
        cases n with
        | text content => exact hfirst
        | _ => rfl
  cases hskips : skipping.contains t.name with
  | true =>
      rcases hbegins hskips with ⟨u, hu, hkept⟩
      rw [← h.grow_skipping hu hkept, Builder.begun, hskips]
  | false =>
      rw [Builder.begun, hskips, ← h.skipsLineFeed]

/-- The end tag of an admitted element closes it with the items that were put into it. -/
theorem Ready.exists_look_endTag (hb : Ready names b) (hadmits : admits names t.name = true)
    {attributes : List Attribute} {items : List Item} {k : Nat} {f g : List Entry}
    (h : Ready (childName b.current.name t.name :: names)
      ((b.entered (childName b.current.name t.name) attributes f).filled items k g))
    (hlist : g.Sublist (b.remembering (childName b.current.name t.name) (tokenOf t))) :
    ∃ f', f'.Sublist b.formatting ∧
      ((b.entered (childName b.current.name t.name) attributes f).filled items k g).look
          (.endTag (lowered t.name)) =
        .done (b.filled [.element b.nextId (childName b.current.name t.name) attributes
          (Item.gather items)] k f') := by
  rcases hb.exists_left hadmits h rfl rfl hlist with ⟨f', hf', hlook⟩
  refine ⟨f', hf', ?_⟩
  rw [hlook, ← hb.left_entered _ attributes items k f g f']

/-- So the end tag is markup that is read in one look. -/
theorem Ready.continues_endTag (hb : Ready names b) (hadmits : admits names t.name = true)
    (hname : isTagName t.name.toList = true) {attributes : List Attribute} {items : List Item}
    {k : Nat} {f g : List Entry}
    (h : Ready (childName b.current.name t.name :: names)
      ((b.entered (childName b.current.name t.name) attributes f).filled items k g))
    (hlist : g.Sublist (b.remembering (childName b.current.name t.name) (tokenOf t)))
    (rest : List Char) :
    Continues ((b.entered (childName b.current.name t.name) attributes f).filled items k g)
      (endTag t ++ rest) := by
  rcases hb.exists_look_endTag hadmits h hlist with ⟨_, _, hlook⟩
  exact ⟨_, _, begins_endTag hname rest, rfl, hlook⟩

/-- A text is put in its place. -/
theorem Ready.grow_text (h : Ready names b) {content : String}
    (hfits : fits raw names (.text content) = true) {rest : List Char}
    (hrest : takesText (modeFor names) = false →
      Continues (b.filled [.text content] b.nextId b.formatting) rest) :
    grow b (write raw (.text content) ++ rest) =
      grow (b.filled [.text content] b.nextId b.formatting) rest := by
  rw [fits, fitsText] at hfits
  simp only [Bool.and_eq_true, decide_eq_true_eq] at hfits
  rcases hfits with ⟨⟨⟨hne, hsteady⟩, hraw⟩, hplace⟩
  cases htext : takesText (modeFor names) with
  | true => exact (h.receptive htext).grow_text hne hsteady hraw rest
  | false =>
      rw [htext, Bool.false_or, Bool.and_eq_true] at hplace
      have hcontent : String.ofList content.toList = content := String.ofList_toList
      -- White space of a table waits until the markup behind it shows that it is all there is.
      have hbehind := hrest htext
      rw [← hcontent] at hbehind
      have hgrow := h.grow_space hplace.2 hne hplace.1 hbehind
      rw [hcontent] at hgrow
      rw [write_space raw hplace.1, hgrow]

-- The induction is over the node, for all states between two nodes. What goes through
-- it is that the list of formatting elements only shrinks: what is left of an element
-- at its end tag is part of what its start tag left.
mutual

/-- A node that fits is put in its place. -/
theorem Ready.exists_grow_write {names : List Name} {b : Builder} (h : Ready names b) {raw : Bool}
    (n : Node) (hfits : fits raw names n = true) :
    ∃ f, f.Sublist b.formatting ∧ ∀ rest,
      (isScript names n = true → rest.head? ≠ some '\uFEFF') →
      (Faithful.isTextNode n = true → takesText (modeFor names) = false →
        Continues (b.filled [(number b.current.name b.nextId n).1]
          (number b.current.name b.nextId n).2 f) rest) →
      grow b (write raw n ++ rest) =
        grow (b.filled [(number b.current.name b.nextId n).1]
          (number b.current.name b.nextId n).2 f) rest := by
  match n with
  | .element tag children =>
      rcases fits_element_cases hfits with ⟨hwritable, ⟨hvoid, hadmits, rfl⟩ | ⟨hvoid, hkind⟩⟩
      -- A void element is its start tag.
      · refine ⟨b.formatting, List.Sublist.refl _, fun rest _ _ => ?_⟩
        have hchild := childName_of_admitsVoid hadmits
        rw [h.innermost_names] at hchild
        rw [write, if_pos hvoid, List.append_assoc, List.singleton_append, startTag_append,
          h.grow_piece (next_startTag hwritable _ rest), h.accept (by simp) (h.look_void hadmits),
          number, numberAll, hchild]
        rfl
      rcases hkind with ⟨hadmits, hchildren⟩ | ⟨hadmits, rfl⟩ | ⟨hadmits, hline, hchildren⟩
      · exact ⟨b.formatting, List.Sublist.refl _, fun rest hmark _ =>
          h.grow_textElement hwritable hadmits hchildren raw fun hname =>
            hmark (isScript_of_admitsText hadmits hname)⟩
      · rcases h.exists_grow_hollow hwritable hadmits raw with ⟨f, hf, hgrow⟩
        exact ⟨f, hf, fun rest _ _ => hgrow rest⟩
      · rw [h.innermost_names] at hchildren
        -- An ordinary element: start tag, then what is inside, then the end tag.
        rcases h.exists_begun hadmits with ⟨f, hf, hstart⟩
        have hinside := h.entered (h.childName_ne_template hadmits)
          (Foreign.attributesIn (childName b.current.name tag.name).space (tokenOf tag).attributes)
          hf
        rcases hinside.exists_growAll_write children hchildren with ⟨g, hg, hgrow⟩
        have hfull := hinside.filled_numberAll children hg
        rcases h.exists_look_endTag hadmits hfull (hg.trans hf) with ⟨f', hf', hend⟩
        refine ⟨f', hf', fun rest _ _ => ?_⟩
        rw [write_element_append raw children hvoid, startTag_append,
          h.grow_piece (next_startTag hwritable _ _), h.accept (by simp) hstart,
          hinside.grow_begun hwritable.name hline hchildren,
          hgrow _ (by rw [endTag_append]; simp) fun _ g' hg' =>
            h.continues_endTag hadmits hwritable.name (hinside.filled_numberAll children hg')
              (hg'.trans hf) rest,
          endTag_append, hfull.grow_piece (next_endTag hwritable.name _ _),
          hfull.accept (by simp) hend, number]
        rfl
  | .text content =>
      refine ⟨b.formatting, List.Sublist.refl _, fun rest _ hrest => ?_⟩
      rw [number] at hrest ⊢
      exact h.grow_text hfits (hrest rfl)
  | .comment content =>
      rw [fits, decide_eq_true_eq] at hfits
      refine ⟨b.formatting, List.Sublist.refl _, fun rest _ _ => ?_⟩
      rw [write, h.grow_comment h.mode_ne hfits, number]
  | .cdata content =>
      rw [fits] at hfits
      exact absurd hfits Bool.false_ne_true

/-- Nodes that fit are put in their places. -/
theorem Ready.exists_growAll_write {names : List Name} {b : Builder} (h : Ready names b)
    {raw : Bool} (ns : List Node) (hfits : fitsAll raw names ns = true) :
    ∃ f, f.Sublist b.formatting ∧ ∀ rest, rest.head? ≠ some '\uFEFF' →
      (takesText (modeFor names) = false → ∀ g, g.Sublist b.formatting →
        Continues (b.filled (numberAll b.current.name b.nextId ns).1
          (numberAll b.current.name b.nextId ns).2 g) rest) →
      grow b (writeAll raw ns ++ rest) =
        grow (b.filled (numberAll b.current.name b.nextId ns).1
          (numberAll b.current.name b.nextId ns).2 f) rest := by
  match ns with
  | [] =>
      refine ⟨b.formatting, List.Sublist.refl _, fun rest _ _ => ?_⟩
      rw [writeAll, numberAll]
      rfl
  | n :: ns =>
      rw [fitsAll, Bool.and_eq_true, Bool.and_eq_true] at hfits
      rcases hfits with ⟨⟨hn, hns⟩, hprecede⟩
      rcases h.exists_grow_write n hn with ⟨f, hf, hgrow⟩
      have hnext := h.filled_number n hf
      rcases hnext.exists_growAll_write ns hns with ⟨g, hg, hgrowAll⟩
      refine ⟨g, hg.trans hf, fun rest hmark hrest => ?_⟩
      have hunmarked (hscript : isScript names n = true) :=
        unmarked_writeAll hns hprecede hscript hmark
      have hbehind (htext : Faithful.isTextNode n = true)
          (hmode : takesText (modeFor names) = false) :
          Continues (b.filled [(number b.current.name b.nextId n).1]
            (number b.current.name b.nextId n).2 f) (writeAll raw ns ++ rest) := by
        refine hnext.continues_writeAll hns hprecede htext hmode ?_
        rintro rfl
        have hlast := hrest hmode f hf
        rw [numberAll, numberAll] at hlast
        exact hlast
      rw [writeAll, List.append_assoc, hgrow _ hunmarked hbehind, hgrowAll _ hmark, filled_filled,
        numberAll]
      · rfl
      · intro hmode g' hg'
        have hlast := hrest hmode g' (hg'.trans hf)
        rw [numberAll] at hlast
        rw [filled_filled]
        exact hlast

end

section Lines

/-- No escape has a carriage return. -/
theorem not_mem_text {content : String} (hreturn : '\r' ∉ content.toList) (raw : Bool) :
    '\r' ∉ write raw (.text content) := by
  rw [write]
  split
  · exact hreturn
  · intro hmem
    rcases mem_escapeText hmem with hescape | ⟨hc, _⟩
    · exact absurd hescape (by decide)
    · exact hreturn hc

theorem not_mem_writeAll_text {name : String} {children : List Node}
    (hfits : fitsAsText name children = true) (raw : Bool) : '\r' ∉ writeAll raw children := by
  rcases fitsAsText_cases hfits with rfl | ⟨content, rfl, _, hsteady, _⟩
  · rw [writeAll]
    exact List.not_mem_nil
  · rw [writeAll, writeAll, List.append_nil]
    exact not_mem_text (not_mem_of_isSteady hsteady).2 raw

mutual

/-- No carriage return is written of what is read as it was written. -/
theorem not_mem_write {raw : Bool} {names : List Name} (n : Node)
    (hfits : fits raw names n = true) : '\r' ∉ write raw n := by
  match n with
  | .element tag children =>
      -- Neither tags nor what is inside have one.
      have hbracket : ('\r' : Char) ≠ '>' := by decide
      rcases fits_element_cases hfits with ⟨hwritable, ⟨hvoid, _⟩ | ⟨hvoid, hkind⟩⟩
      · rw [write, if_pos hvoid]
        simp [not_mem_startTag hwritable]
      have hinside : '\r' ∉ writeAll (rawNames.contains tag.name) children := by
        rcases hkind with ⟨_, htext⟩ | ⟨_, rfl⟩ | ⟨_, _, hchildren⟩
        · exact not_mem_writeAll_text htext _
        · rw [writeAll]
          exact List.not_mem_nil
        · exact not_mem_writeAll children hchildren
      have hwritten := write_element_append raw children hvoid []
      rw [List.append_nil, List.append_nil] at hwritten
      rw [hwritten]
      simp only [List.mem_append, List.mem_cons, not_or]
      exact ⟨not_mem_startTag hwritable, hbracket, hinside, not_mem_endTag hwritable⟩
  | .text content =>
      rw [fits, fitsText] at hfits
      simp only [Bool.and_eq_true] at hfits
      exact not_mem_text (not_mem_of_isSteady hfits.1.1.2).2 raw
  | .comment content =>
      rw [fits, decide_eq_true_eq] at hfits
      have hreturn := (not_mem_of_isSteady hfits.steady).2
      simp [write, writeComment, hreturn]
  | .cdata content =>
      rw [fits] at hfits
      exact absurd hfits Bool.false_ne_true

theorem not_mem_writeAll {raw : Bool} {names : List Name} (ns : List Node)
    (hfits : fitsAll raw names ns = true) : '\r' ∉ writeAll raw ns := by
  match ns with
  | [] =>
      rw [writeAll]
      exact List.not_mem_nil
  | n :: ns =>
      rw [fitsAll, Bool.and_eq_true, Bool.and_eq_true] at hfits
      rw [writeAll, List.mem_append, not_or]
      exact ⟨not_mem_write n hfits.1.1, not_mem_writeAll ns hfits.1.2⟩

end

/-- Without carriage returns the lines are as they should be. -/
theorem normalizeLines_of_not_mem {cs : List Char} (h : '\r' ∉ cs) : normalizeLines cs = cs := by
  induction cs with
  | nil => rfl
  | cons c cs ih =>
      rw [List.mem_cons, not_or] at h
      rw [normalizeLines, if_neg (Ne.symm h.1), ih h.2]

end Lines

/-- The items at the top when a text has been read whose items are known. -/
theorem children_finish_filled (items : List Item) (k : Nat) (f : List Entry) :
    (Builder.filled {} items k f).finish.tree.children = Item.gather items := by
  have hmode : (Builder.filled {} items k f).mode = .inBody := rfl
  have htree := @Item.appendEach_element rootElement.id rootElement.name [] items
  rw [Builder.finish, hmode, if_neg (by decide)]
  exact congrArg Item.children htree

/-- Reading nodes that fit gives their items. -/
theorem read_writeAll {ns : List Node} (hfits : fitsAll false [.html "html"] ns = true)
    (hmark : (writeAll false ns).head? ≠ some '\uFEFF') :
    read (writeAll false ns) =
      Item.toNodes (Item.gather (numberAll (.html "html") 1 ns).1) := by
  rcases ready_start.exists_growAll_write ns hfits with ⟨f, hf, hgrow⟩
  -- The body takes texts, so that nothing is asked of the end of the text.
  have hbody : takesText (modeFor [.html "html"]) = true := rfl
  have hgrown := hgrow [] (by simp) fun hmode => absurd hmode (by rw [hbody]; decide)
  rw [List.append_nil] at hgrown
  rw [read, Text.dropMark_of_unmarked hmark, normalizeLines_of_not_mem (not_mem_writeAll ns hfits),
    hgrown, grow, children_finish_filled]
  rfl

end Nodes

end Html

end SoleRoot

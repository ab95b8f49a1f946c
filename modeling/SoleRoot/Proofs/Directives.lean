import SoleRoot.Directives
import SoleRoot.Proofs.Faithful.Decoding

/-!
# Adding Directives

What directives do to an element, and why they leave its tag readable.

A directive is added to a start tag as an attribute behind the others, unless the
tag has an attribute of this name, so adding the same directives twice adds them
once. Nothing but the attributes changes.

For a tag that is spelled by a section of clauses, a directive is one clause more
at the end of the section. Its key is new, its value has nothing to be mistaken
for, and it has white space before it and closes the quotes that it opens. So the
tag that was read again before is read again after, whatever the section was
like: `Readable.declare` is this step, and a fold over the directives does the
rest.

## Main definitions

* `Clauses.snoc`: A section with one more clause.
* `Event.TagReadable`: Whether the tag of an event can take a directive.

## Theorems

* `Element.inject_inject`: Directives are added once.
* `Spells.snoc`, `Spells.whole_snoc`: A section with one more clause spells a tag
  with one more attribute.
* `Readable.declare`: A directive leaves a tag readable.
* `flatten_inject`: Directives change the tag of an element and nothing else.
* `rereads_inject`: Events are read again with directives added.
-/

namespace SoleRoot

namespace Tag

theorem declare_of_hasAttribute {t : Tag} {name : String} (h : t.hasAttribute name = true) :
    t.declare name = t :=
  if_pos h

theorem declare_of_not_hasAttribute {t : Tag} {name : String} (h : t.hasAttribute name = false) :
    t.declare name = { t with attributes := t.attributes ++ [{ name, value := "true" }] } :=
  if_neg (by rw [h]; exact Bool.false_ne_true)

theorem hasAttribute_declare {t : Tag} {name other : String}
    (h : other = name ∨ t.hasAttribute other = true) :
    (t.declare name).hasAttribute other = true := by
  -- If the directive is there already, nothing is added.
  cases hname : t.hasAttribute name with
  | true =>
      rw [declare_of_hasAttribute hname]
      rcases h with rfl | h
      · exact hname
      · exact h
  | false =>
      rw [declare_of_not_hasAttribute hname, hasAttribute, List.any_append, Bool.or_eq_true]
      rcases h with rfl | h
      · exact .inr (by simp)
      · exact .inl h

theorem hasAttribute_foldl_declare {names : List String} {t : Tag} {name : String}
    (h : name ∈ names ∨ t.hasAttribute name = true) :
    (names.foldl declare t).hasAttribute name = true := by
  -- An attribute that is there stays, and the one that is asked for is added on
  -- the way.
  induction names generalizing t with
  | nil => exact h.resolve_left (by simp)
  | cons other names ih =>
      rw [List.foldl_cons]
      refine ih ?_
      rcases h with h | h
      · rcases List.mem_cons.1 h with rfl | h
        · exact .inr (hasAttribute_declare (.inl rfl))
        · exact .inl h
      · exact .inr (hasAttribute_declare (.inr h))

/-- Directives that a tag has are not added. -/
theorem foldl_declare_of_hasAttribute {names : List String} {t : Tag}
    (h : ∀ name ∈ names, t.hasAttribute name = true) : names.foldl declare t = t := by
  induction names with
  | nil => rfl
  | cons name names ih =>
      rw [List.foldl_cons, declare_of_hasAttribute (h name List.mem_cons_self)]
      exact ih fun other hother => h other (List.mem_cons_of_mem name hother)

/-- A directive changes the attributes and nothing else. -/
theorem exists_attributes_foldl_declare (names : List String) (t : Tag) :
    ∃ attributes, (∀ space, names.foldl declare { t with endTrailing := space } =
      { t with attributes, endTrailing := space }) := by
  induction names generalizing t with
  | nil => exact ⟨t.attributes, fun space => rfl⟩
  | cons name names ih =>
      cases hname : t.hasAttribute name with
      | true =>
          -- Whether a name is there does not depend on what the end tag records.
          rcases ih t with ⟨attributes, h⟩
          refine ⟨attributes, fun space => ?_⟩
          have hspace : Tag.hasAttribute { t with endTrailing := space } name = true := hname
          rw [List.foldl_cons, declare_of_hasAttribute hspace, h]
      | false =>
          obtain ⟨attributes, h⟩ :=
            ih { t with attributes := t.attributes ++ [{ name, value := "true" }] }
          refine ⟨attributes, fun space => ?_⟩
          have hspace : Tag.hasAttribute { t with endTrailing := space } name = false := hname
          rw [List.foldl_cons, declare_of_not_hasAttribute hspace]
          exact h space

end Tag

theorem DirectiveSet.eq_of_mem_names {d : DirectiveSet} {name : String} (h : name ∈ d.names) :
    name = "v-pre" ∨ name = "v-once" := by
  simp only [DirectiveSet.names, List.mem_append] at h
  rcases h with h | h
  · split at h
    · exact .inl (List.mem_singleton.1 h)
    · simp at h
  · split at h
    · exact .inr (List.mem_singleton.1 h)
    · simp at h

namespace Element

/-- Directives are added once. -/
theorem inject_inject (e : Element) (d : DirectiveSet) : (e.inject d).inject d = e.inject d := by
  have htag : d.names.foldl Tag.declare (d.names.foldl Tag.declare e.toTag) =
      d.names.foldl Tag.declare e.toTag :=
    Tag.foldl_declare_of_hasAttribute fun name hname => Tag.hasAttribute_foldl_declare (.inl hname)
  simp only [inject, htag]

end Element

namespace Faithful

/-- White space changes nothing about an open quote. -/
theorem openQuote?_space (quote : Option Quote) {cs : List Char}
    (h : ∀ c ∈ cs, Text.isXmlSpace c = true) : openQuote? quote cs = some quote := by
  induction cs with
  | nil => cases quote <;> rfl
  | cons c cs ih =>
      rcases List.forall_mem_cons.1 h with ⟨hc, hcs⟩
      rcases quiet_of_isXmlSpace hc with ⟨hangle, hquote⟩
      cases quote with
      | none =>
          rw [openQuote?, if_neg hangle, hquote]
          exact ih hcs
      | some quote =>
          -- A quote closes an open quote, but white space is none.
          have hne : c ≠ quote.toChar := by
            rintro rfl
            rw [Quote.ofChar?_toChar] at hquote
            exact Option.some_ne_none _ hquote
          rw [openQuote?, if_neg hne]
          exact ih hcs

theorem openQuote?_of_append_space {cs trail : List Char}
    (htrail : ∀ c ∈ trail, Text.isXmlSpace c = true)
    (h : openQuote? none (cs ++ trail) = some none) : openQuote? none cs = some none := by
  rw [openQuote?_append] at h
  rcases Option.bind_eq_some_iff.1 h with ⟨quote, hquote, hrest⟩
  rw [openQuote?_space quote htrail] at hrest
  rw [hquote, Option.some.inj hrest]

/-- A clause more at the end of a section. -/
def Clauses.snoc (s : Clauses) (c : Clause) : Clauses :=
  { s with list := s.list ++ [c] }

theorem Clauses.text_snoc (s : Clauses) (c : Clause) :
    (s.snoc c).text = s.list.flatMap Clause.text ++ (c.text ++ s.trail) := by
  simp only [snoc, text, List.flatMap_append, List.flatMap_singleton, List.append_assoc]

/-- A section stays apart from the name if a clause with white space before it is
    added. -/
theorem Clauses.head_text_snoc {s : Clauses} {c : Clause}
    (h : ∀ d ∈ s.text.head?, Text.isXmlSpace d = true) (hlead : c.lead ≠ []) :
    ∀ d ∈ (s.snoc c).text.head?, Text.isXmlSpace d = true := by
  cases hlist : s.list with
  | nil =>
      refine head_text fun first hfirst => ?_
      rw [snoc, hlist] at hfirst
      exact Option.some.inj hfirst ▸ hlead
  | cons first list =>
      -- There is a clause already, and the section begins with it as before.
      have hne : s.list.flatMap Clause.text ≠ [] := by simp [hlist, Clause.text]
      intro d hd
      rw [text_snoc, List.head?_append_of_ne_nil _ hne] at hd
      exact h d (by rw [text, List.head?_append_of_ne_nil _ hne]; exact hd)

theorem validAttribute_directive {name : String} (h : ValidName name) :
    ValidAttribute { name, value := "true" } where
  name := h
  no_angle := show '<' ∉ "true".toList by decide
  quote_free := show '"' ∉ "true".toList by decide
  references := show check "true".toList = .ok () by decide
  leading_space := by simp
  leading_unusual := by simp
  separator_form := by simp
  separator_unusual := by simp

namespace Spells

variable {s : Clauses} {tag : Tag} {c : Clause}

/-- A clause with the key of an attribute is the clause of an attribute. -/
theorem hasAttribute_of_mem_keys (h : Spells s tag) {name : String} (hname : name.toList ∈ s.keys) :
    tag.hasAttribute name = true := by
  rcases List.mem_map.1 hname with ⟨d, hd, hkey⟩
  rw [Tag.hasAttribute, h.attributes]
  refine List.any_eq_true.2 ⟨d.toAttribute, List.mem_map_of_mem hd, ?_⟩
  rw [Clause.toAttribute, hkey, String.ofList_toList]
  exact beq_self_eq_true name

/-- A tag with one more attribute is spelled by a section with one more clause. -/
theorem snoc (h : Spells s tag) (hplain : c.Plain) (hlead : c.lead ≠ []) (hkey : c.key ∉ s.keys)
    (hangle : '<' ∉ c.value) (hcheck : check c.value = .ok ()) :
    Spells (s.snoc c) { tag with attributes := tag.attributes ++ [c.toAttribute] } where
  attributes := by rw [Clauses.snoc, List.map_append, List.map_singleton, ← h.attributes]
  trailing := h.trailing
  plain := List.forall_mem_append.2 ⟨h.plain, List.forall_mem_singleton.2 hplain⟩
  valid :=
    { keys_nodup := by
        rw [Clauses.keys, Clauses.snoc, List.map_append, List.map_singleton, List.nodup_append]
        refine ⟨h.valid.keys_nodup, List.nodup_singleton _, ?_⟩
        rintro key hmem _ hlast rfl
        exact hkey (List.mem_singleton.1 hlast ▸ hmem)
      no_angle := List.forall_mem_append.2 ⟨h.valid.no_angle,
        List.forall_mem_singleton.2 hangle⟩
      references := List.forall_mem_append.2 ⟨h.valid.references,
        List.forall_mem_singleton.2 hcheck⟩ }
  name_solid := h.name_solid
  head_space := Clauses.head_text_snoc h.head_space hlead

/-- The tag is still cut off at its end: the new clause stands behind the name,
    closes the quotes that it opens, and does not end with a slash. -/
theorem whole_snoc (h : Spells s tag)
    (h' : Spells (s.snoc c) { tag with attributes := tag.attributes ++ [c.toAttribute] })
    (hopen : openQuote? none c.text = some none) (hwhole : (tagToken tag).Whole) :
    (tagToken { tag with attributes := tag.attributes ++ [c.toAttribute] }).Whole := by
  rcases whole_tagToken_iff.1 hwhole with ⟨hstarts, hclosed, _⟩
  have htext : (s.snoc c).text ≠ [] := by
    rw [Clauses.text_snoc]
    simp [Clause.text]
  rw [whole_tagToken_iff, h'.tagContent_eq]
  rw [h.tagContent_eq] at hstarts hclosed
  refine ⟨?_, ?_, fun _ => ?_⟩
  · intro d hd
    cases hname : tag.name.toList with
    | nil =>
        -- Without a name the tag begins with the white space of its first clause.
        rw [hname, List.nil_append, List.head?_append_of_ne_nil _ htext] at hd
        have hspace := h'.head_space d hd
        refine ⟨?_, ?_, ?_⟩ <;> (rintro rfl; exact absurd hspace (by decide))
    | cons first others =>
        rw [hname] at hd hstarts
        exact hstarts d hd
  · -- The white space at the end moves behind the new clause.
    rw [Clauses.text, ← List.append_assoc] at hclosed
    have hbefore := openQuote?_of_append_space s.trail_space hclosed
    rw [Clauses.text_snoc, ← List.append_assoc, openQuote?_append, hbefore, Option.bind_some,
      openQuote?_append, hopen]
    exact openQuote?_space none s.trail_space
  · rw [List.getLast?_append_of_ne_nil _ htext]
    exact Clauses.getLast?_text _

end Spells

/-- A directive leaves a tag readable. -/
theorem Readable.declare {tag : Tag} {name : String} (h : Readable tag) (hname : ValidName name) :
    Readable (tag.declare name) := by
  cases hhas : tag.hasAttribute name with
  | true =>
      rw [Tag.declare_of_hasAttribute hhas]
      exact h
  | false =>
      rcases h with ⟨⟨s, hs⟩, hwhole⟩
      have hvalid := validAttribute_directive hname
      rcases hvalid.exists_clause with ⟨c, hattribute, hplain, hlead, hkey, hvalue, hopen⟩
      -- The attribute would have been found by the directive's name.
      have hnew : c.key ∉ s.keys := by
        intro hmem
        rw [hkey] at hmem
        exact Bool.false_ne_true (hhas.symm.trans (hs.hasAttribute_of_mem_keys hmem))
      have hspells := hs.snoc hplain (by rw [hlead]; simp) hnew
        (by rw [hvalue]; exact hvalid.no_angle) (by rw [hvalue]; exact hvalid.references)
      rw [Tag.declare_of_not_hasAttribute hhas, ← hattribute]
      exact ⟨⟨s.snoc c, hspells⟩, hs.whole_snoc hspells hopen hwhole⟩

theorem validName_of_mem_names {d : DirectiveSet} {name : String} (h : name ∈ d.names) :
    ValidName name := by
  rcases DirectiveSet.eq_of_mem_names h with rfl | rfl <;>
    exact validName_of_all (by decide) (by decide)

/-- Any number of directives leaves a tag readable. -/
theorem Readable.foldl_declare {tag : Tag} (h : Readable tag) {names : List String}
    (hnames : ∀ name ∈ names, ValidName name) : Readable (names.foldl Tag.declare tag) :=
  List.foldlRecOn names Tag.declare h fun _ htag name hname => htag.declare (hnames name hname)

/-- Directives change the tag of the first event of an element and nothing else. -/
theorem flatten_inject (e : Element) (d : DirectiveSet) :
    ∃ (opening : Tag → Event) (tag : Tag) (es : List Event),
      (opening = .single ∨ opening = .start) ∧ flatten e.toNode = opening tag :: es ∧
        flatten (e.inject d).toNode = opening (d.names.foldl Tag.declare tag) :: es := by
  rcases Tag.exists_attributes_foldl_declare d.names e.toTag with ⟨attributes, h⟩
  have htag : d.names.foldl Tag.declare e.toTag = { e.toTag with attributes } := h e.endTrailing
  have hnode : (e.inject d).toNode = .element { e.toTag with attributes } e.children := by
    rw [← htag]
    rfl
  rw [hnode]
  -- Neither the kind of the element nor its end tag depends on the attributes.
  by_cases hsingle : (e.selfClosing && e.children.isEmpty) = true
  · refine ⟨.single, e.toTag, [], .inl rfl, ?_, ?_⟩
    · rw [Element.toNode, flatten, if_pos hsingle]
    · rw [htag, flatten]
      exact if_pos hsingle
  · refine ⟨.start, { e.toTag with endTrailing := none },
      flattenAll e.children ++ [.stop e.name e.endTrailing], .inr rfl, ?_, ?_⟩
    · rw [Element.toNode, flatten, if_neg hsingle]
    · rw [h none, flatten]
      exact if_neg hsingle

/-- Whether the tag of an event, if it has one, can take a directive. -/
def Event.TagReadable : Event → Prop
  | .start tag => Readable tag ∧ tag.selfClosing = false ∧ tag.endTrailing = none
  | .single tag => Readable tag ∧ tag.selfClosing = true ∧ tag.endTrailing = none
  | _ => True

theorem rereads_tagEvent {tag : Tag} {d : DirectiveSet} (h : Readable tag)
    (hend : tag.endTrailing = none) : (tagEvent (d.names.foldl Tag.declare tag)).Rereads ∧
      (d.names.foldl Tag.declare tag).selfClosing = tag.selfClosing := by
  rcases Tag.exists_attributes_foldl_declare d.names tag with ⟨attributes, hattributes⟩
  have htag : d.names.foldl Tag.declare tag = { tag with attributes } :=
    hattributes tag.endTrailing
  refine ⟨(h.foldl_declare fun name hname => validName_of_mem_names hname).rereads ?_, ?_⟩
  · rw [htag]
    exact hend
  · rw [htag]

/-- The opening event of an element is read again with directives added. -/
theorem rereads_declared {opening : Tag → Event} (hopening : opening = .single ∨ opening = .start)
    {tag : Tag} (h : (opening tag).TagReadable) (d : DirectiveSet) :
    (opening (d.names.foldl Tag.declare tag)).Rereads := by
  rcases hopening with rfl | rfl
  · rcases h with ⟨hreadable, hself, hend⟩
    rcases rereads_tagEvent (d := d) hreadable hend with ⟨hevent, hself'⟩
    rwa [tagEvent_single (hself'.trans hself)] at hevent
  · rcases h with ⟨hreadable, hself, hend⟩
    rcases rereads_tagEvent (d := d) hreadable hend with ⟨hevent, hself'⟩
    rwa [tagEvent_start (hself'.trans hself)] at hevent

/-- If the events of an element are read again, then so are they with directives
    added. -/
theorem rereads_inject {e : Element} {d : DirectiveSet}
    (h : ∀ ev ∈ flatten e.toNode, ev.Rereads ∧ ev.TagReadable) :
    ∀ ev ∈ flatten (e.inject d).toNode, ev.Rereads := by
  rcases flatten_inject e d with ⟨opening, tag, es, hopening, hflatten, hinject⟩
  rw [hflatten, List.forall_mem_cons] at h
  rw [hinject]
  exact List.forall_mem_cons.2 ⟨rereads_declared hopening h.1.2 d, fun ev hev => (h.2 ev hev).1⟩

end Faithful

end SoleRoot

import SoleRoot.Options
import SoleRoot.Proofs.Directives
import SoleRoot.Proofs.Faithful.Joining

/-!
# The Root Is a Fixed Point

What becomes of the output of the faithful dialect when it is read again.

The output is a template around the text of the root. Reading it should give
one template element with the root inside, and bringing the root's own text
under one root should leave it alone. The root is an element of the text or a
container that was put around what the text has, with directives added to its
start tag, so most of its events were read from the text, and one or two were
put together.

Whether the output is a fixed point is decided event by event.
`fixedPoint_iff` says that it is one exactly if every event of the root is read
again on its own. One half is what is known of reading and writing. The other
half uses that a template which is read back whole has lost nothing, so that
none of its events can have been read as something else.

An added directive does no harm, nor does a container, whose tag has a name and
nothing else. What does harm is a tag of the text that was not kept as it was
read, and with names and keys without blank characters that takes a key that
begins with an equals sign. `not_fixedPoint` has the shortest text of this kind,
whose output cannot be read at all.

## Main definitions

* `Document.rooted`: The root of a document, with its directives.
* `FixedPoint`: Whether the output is read back as one template around the root,
  and the root as itself.

## Theorems

* `rereads_rooted`: The events of a root are read again if those of the text are.
* `fixedPoint_of_rereads`, `rereads_of_fixedPoint`: The two halves.
* `fixedPoint_iff`: When the output is a fixed point.
* `not_fixedPoint`: A text whose output is not.
-/

namespace SoleRoot

open Faithful

/-- The root of a document, with its directives. -/
def Document.rooted (d : Document) (directives : DirectiveSet) : ResolvedRoot :=
  { d.consolidate with element := d.consolidate.element.inject directives }

theorem resolve_of_parse {mode : Mode} {source : String} {d : Document}
    (h : Document.parse mode source = .ok d) (directives : DirectiveSet) :
    resolve mode directives none source = .ok (d.rooted directives) := by
  simp only [resolve, preprocess, bind, Except.bind, h, Except.mapError]
  rfl

namespace Document

/-- The two ways in which a document has a root. -/
theorem consolidate_cases (d : Document) :
    (∃ e : Element, e.toNode ∈ d.nodes ∧ d.consolidate = ⟨d.mode, e, false⟩) ∨
      d.consolidate =
        ⟨d.mode, ⟨{ name := containerName }, d.nodes.filter Node.isKept⟩, true⟩ := by
  unfold consolidate
  split
  · rename_i tag children h
    refine .inl ⟨⟨tag, children⟩, ?_, rfl⟩
    exact List.mem_of_mem_filter (h ▸ List.mem_cons_self)
  · exact .inr rfl

/-- An element by itself is its own root. -/
theorem consolidate_singleton (mode : Mode) (e : Element) :
    consolidate ⟨mode, [e.toNode]⟩ = ⟨mode, e, false⟩ := rfl

theorem mode_consolidate (d : Document) : d.consolidate.mode = d.mode := by
  rcases d.consolidate_cases with ⟨e, _, h⟩ | h
  · rw [h]
  · rw [h]

end Document

namespace Faithful

/-- A tag with a name and nothing else. -/
theorem validTag_of_name {name : String} (h : ValidName name)
    (hfirst : name.toList.head? ≠ some '!' ∧ name.toList.head? ≠ some '?') :
    ValidTag { name } where
  name := h
  first := hfirst
  attributes := by simp
  names_nodup := by simp
  first_leading := by simp
  trailing := by simp [ValidSpace]
  endTrailing := by simp [ValidSpace]

/-- The events of an element that has a name and nothing else. -/
theorem flatten_named (name : String) (children : List Node) :
    flatten (.element { name } children) =
      .start { name } :: (flattenAll children ++ [.stop name none]) :=
  flatten_element rfl

theorem rereads_named {name : String} {children : List Node} (h : ValidTag { name })
    (hchildren : ∀ e ∈ flattenAll children, e.Rereads) :
    ∀ e ∈ flatten (.element { name } children), e.Rereads := by
  have hstart := h.readable.rereads rfl
  rw [tagEvent_start rfl] at hstart
  rw [flatten_named]
  exact List.forall_mem_cons.2 ⟨hstart,
    List.forall_mem_append.2 ⟨hchildren, List.forall_mem_singleton.2 h.rereads_stop⟩⟩

theorem validTag_container : ValidTag { name := containerName } :=
  validTag_of_name (validName_of_all (by decide) (by decide)) (by decide)

/-- The events of a root are read again if those of the document are. -/
theorem rereads_rooted {d : Document} {directives : DirectiveSet}
    (h : ∀ e ∈ flattenAll d.nodes, e.Rereads ∧ e.TagReadable) :
    ∀ e ∈ flatten (d.rooted directives).element.toNode, e.Rereads := by
  refine rereads_inject ?_
  rcases d.consolidate_cases with ⟨e, he, hroot⟩ | hroot
  · rw [hroot]
    exact fun ev hev => h ev (mem_flattenAll he hev)
  · -- The container has a tag of its own around what was kept.
    rw [hroot]
    intro ev hev
    refine ⟨rereads_named validTag_container
      (fun f hf => (h f (mem_flattenAll_filter hf)).1) ev hev, ?_⟩
    change ev ∈ flatten (.element { name := containerName } (d.nodes.filter Node.isKept)) at hev
    rw [flatten_named, List.mem_cons, List.mem_append, List.mem_singleton] at hev
    rcases hev with rfl | hev | rfl
    · exact ⟨validTag_container.readable, rfl, rfl⟩
    · exact (h ev (mem_flattenAll_filter hev)).2
    · trivial

/-- A root has no other texts than its document. -/
theorem mem_of_mem_rooted {d : Document} {directives : DirectiveSet} {e : Event}
    (htext : e.token.isText = true) (h : e ∈ flatten (d.rooted directives).element.toNode) :
    e ∈ flattenAll d.nodes := by
  have hinside : e ∈ flatten d.consolidate.element.toNode := by
    rcases flatten_inject d.consolidate.element directives with
      ⟨opening, tag, es, hopening, hflatten, hinject⟩
    change e ∈ flatten (d.consolidate.element.inject directives).toNode at h
    rw [hinject, List.mem_cons] at h
    rw [hflatten]
    refine List.mem_cons_of_mem _ (h.resolve_left ?_)
    -- The tag of the element is no text.
    rintro rfl
    rcases hopening with rfl | rfl <;> exact Bool.noConfusion htext
  rcases d.consolidate_cases with ⟨element, helement, hroot⟩ | hroot
  · rw [hroot] at hinside
    exact mem_flattenAll helement hinside
  · rw [hroot] at hinside
    change e ∈ flatten (.element { name := containerName } (d.nodes.filter Node.isKept)) at hinside
    rw [flatten_named, List.mem_cons, List.mem_append, List.mem_singleton] at hinside
    rcases hinside with rfl | hinside | rfl
    · exact Bool.noConfusion htext
    · exact mem_flattenAll_filter hinside
    · exact Bool.noConfusion htext

/-- The events of an accepted text are read again, and its tags can take
    directives, if both readings agree about them. -/
theorem rereads_of_keys {source : List Char} {nodes : List Node}
    (hmark : source.head? ≠ some '\uFEFF') (h : read source = .ok nodes)
    (hsolid : ∀ t ∈ (cut source).tokens, t.Solid)
    (hequals : ∀ t ∈ (cut source).tokens, ∀ key ∈ t.keys, key.head? ≠ some '=') :
    ∀ e ∈ flattenAll nodes, e.Rereads ∧ e.TagReadable := by
  rcases (read_eq_ok_iff_of_unmarked hmark).1 h with ⟨hacceptable, hflatten⟩
  intro e he
  rw [hflatten] at he
  rcases List.mem_filterMap.1 he with ⟨t, ht, hevent⟩
  have hwhole := whole_of_mem_cut t ht
  have hvalid := hacceptable.valid t ht
  -- Without such keys both readings divide a tag alike.
  have hquoted := Token.quoted_of_keys hvalid (hsolid t ht) (hequals t ht)
  refine ⟨rereads_of_respelled hwhole hvalid hevent
    ((Token.respelled_eq_iff (hsolid t ht)).2 hquoted), ?_⟩
  cases t with
  | startTag content =>
      rcases Option.some.inj hevent with rfl
      exact ⟨readable_spelledTag rfl hwhole hvalid (hsolid _ ht) (hequals _ ht), rfl, rfl⟩
  | selfClosingTag content =>
      rcases Option.some.inj hevent with rfl
      exact ⟨readable_spelledTag rfl hwhole hvalid (hsolid _ ht) (hequals _ ht), rfl, rfl⟩
  | doctype content | instruction content => simp [Token.ownEvent?, Token.event?] at hevent
  | _ =>
      rcases Option.some.inj hevent with rfl
      trivial

/-- A text of an accepted text is read again by itself. -/
theorem rereads_of_isText {source : List Char} {nodes : List Node}
    (hmark : source.head? ≠ some '\uFEFF') (h : read source = .ok nodes) {e : Event}
    (htext : e.token.isText = true) (he : e ∈ flattenAll nodes) : e.Rereads := by
  rcases (read_eq_ok_iff_of_unmarked hmark).1 h with ⟨hacceptable, hflatten⟩
  rw [hflatten] at he
  rcases List.mem_filterMap.1 he with ⟨t, ht, hevent⟩
  refine rereads_of_respelled (whole_of_mem_cut t ht) (hacceptable.valid t ht) hevent ?_
  cases t with
  | text content => rfl
  | _ =>
      rw [Token.token_of_ownEvent? hevent] at htext
      exact Bool.noConfusion htext

end Faithful

/-- Whether the output for a text is read back as one template around the root,
    and the text of the root as the root: no container, no attribute more, and
    the same text again. Texts side by side come back joined. -/
structure FixedPoint (directives : DirectiveSet) (source : String) (root : ResolvedRoot) :
    Prop where
  output : ∃ out, transform { directives, mode := .faithful } source = .ok out ∧
    Document.parse .faithful out =
      .ok ⟨.faithful, [.element { name := "template" } [join root.element.toNode]]⟩
  again : ∃ (e : Element) (root' : ResolvedRoot),
    Document.parse .faithful root.serialize = .ok ⟨.faithful, [e.toNode]⟩ ∧
      resolve .faithful directives none root.serialize = .ok root' ∧
      root'.synthesized = false ∧ root'.element = e ∧ root'.serialize = root.serialize

section FixedPoint

variable {directives : DirectiveSet} {source : String} {d : Document}

/-- The element that an element's text is read as. -/
def Element.joined (e : Element) : Element :=
  { e with children := joinAll e.children }

theorem Element.toNode_joined (e : Element) : e.joined.toNode = join e.toNode := by
  rw [Element.toNode, Element.toNode, join]
  rfl

theorem validTag_template : ValidTag { name := "template" } :=
  validTag_of_name (validName_of_all (by decide) (by decide)) (by decide)

theorem serialize_rooted (h : d.mode = .faithful) :
    (d.rooted directives).serialize =
      String.ofList (write (d.rooted directives).element.toNode) := by
  have hmode : (d.rooted directives).mode = .faithful := d.mode_consolidate.trans h
  rw [ResolvedRoot.serialize, hmode]
  rfl

/-- The output is the text of a template around the root. -/
theorem transform_of_parse (h : Document.parse .faithful source = .ok d) :
    transform { directives, mode := .faithful } source =
      .ok (String.ofList (writeAll
        [.element { name := "template" } [(d.rooted directives).element.toNode]])) := by
  rcases parse_eq_ok_iff_read.1 h with ⟨hmode, _⟩
  have hresolve := resolve_of_parse h directives
  -- There is neither a preprocessor nor a registry.
  have htransform : transform { directives, mode := .faithful } source =
      .ok (componentSource (d.rooted directives).serialize none) := by
    rw [transform, Options.preprocessor?, Option.bind_none, hresolve]
    rfl
  rw [htransform, componentSource, Option.bind_none, templateBlock, serialize_rooted hmode]
  refine congrArg Except.ok (String.toList_inj.1 ?_)
  simp [writeAll, write, startTag, endTag]

theorem head?_write_toNode (e : Element) : (write e.toNode).head? = some '<' := by
  have h := head?_write_ne (n := e.toNode) rfl []
  rwa [List.append_nil] at h

/-- A root by itself is read as itself, its texts joined, and stays as it is. -/
theorem again_of_rereads (h : d.mode = .faithful)
    (hevents : ∀ e ∈ flatten (d.rooted directives).element.toNode, e.Rereads) :
    Document.parse .faithful (d.rooted directives).serialize =
        .ok ⟨.faithful, [(d.rooted directives).element.joined.toNode]⟩ ∧
      resolve .faithful directives none (d.rooted directives).serialize =
        .ok ⟨.faithful, (d.rooted directives).element.joined, false⟩ := by
  have hwrite : write (d.rooted directives).element.toNode =
      writeAll [(d.rooted directives).element.toNode] := by
    rw [writeAll, writeAll, List.append_nil]
  -- An element begins with a bracket, not with a byte order mark.
  have hmark : (writeAll [(d.rooted directives).element.toNode]).head? ≠ some '\uFEFF' := by
    rw [← hwrite, head?_write_toNode]
    decide
  have hparse : Document.parse .faithful (d.rooted directives).serialize =
      .ok ⟨.faithful, [(d.rooted directives).element.joined.toNode]⟩ := by
    rw [parse_eq_ok_iff_read, serialize_rooted h, String.toList_ofList, hwrite,
      read_writeAll_join (by
        rw [flattenAll_cons, flattenAll_nil, List.append_nil]
        exact hevents) hmark]
    exact ⟨rfl, by rw [Element.toNode_joined, joinAll, joinAll, joinBefore]; simp⟩
  refine ⟨hparse, ?_⟩
  -- The directives are there already.
  have hinject : (d.rooted directives).element.joined.inject directives =
      (d.rooted directives).element.joined := by
    have hagain := d.consolidate.element.inject_inject directives
    exact congrArg Element.joined hagain
  rw [resolve_of_parse hparse directives, Document.rooted, Document.consolidate_singleton]
  simp only [hinject]

/-- If every event of the root is read again, then the output is a fixed point. -/
theorem fixedPoint_of_rereads (h : Document.parse .faithful source = .ok d)
    (hevents : ∀ e ∈ flatten (d.rooted directives).element.toNode, e.Rereads) :
    FixedPoint directives source (d.rooted directives) where
  output := by
    refine ⟨_, transform_of_parse h, parse_eq_ok_iff_read.2 ⟨rfl, ?_⟩⟩
    -- The tag of the template is plain, so the events inside it decide.
    have hinside : ∀ e ∈ flattenAll [(d.rooted directives).element.toNode], e.Rereads := by
      rw [flattenAll_cons, flattenAll_nil, List.append_nil]
      exact hevents
    rw [String.toList_ofList, read_writeAll_join (by
      rw [flattenAll_cons, flattenAll_nil, List.append_nil]
      exact rereads_named validTag_template hinside) (by simp [writeAll, write, startTag])]
    simp only [joinAll, join, joinBefore]
    rfl
  again := by
    rcases parse_eq_ok_iff_read.1 h with ⟨hmode, _⟩
    rcases again_of_rereads hmode hevents with ⟨hparse, hresolve⟩
    refine ⟨_, _, hparse, hresolve, rfl, rfl, ?_⟩
    rw [serialize_rooted hmode, ← write_join, ← Element.toNode_joined]
    rfl

/-- If the output is a fixed point, then every event of the root is read again. -/
theorem rereads_of_fixedPoint (hmark : source.toList.head? ≠ some '\uFEFF')
    (h : Document.parse .faithful source = .ok d)
    (hfixed : FixedPoint directives source (d.rooted directives)) :
    ∀ e ∈ flatten (d.rooted directives).element.toNode, e.Rereads := by
  rcases parse_eq_ok_iff_read.1 h with ⟨_, hread⟩
  rcases hfixed.output with ⟨out, hout, hparse⟩
  rw [transform_of_parse h] at hout
  rcases parse_eq_ok_iff_read.1 hparse with ⟨_, hagain⟩
  -- The template that is read back is written as the output it was read from.
  have hjoin : [Node.element { name := "template" } [join (d.rooted directives).element.toNode]] =
      joinAll [.element { name := "template" } [(d.rooted directives).element.toNode]] := by
    simp only [joinAll, join, joinBefore]
    rfl
  have hwrite : writeAll [.element { name := "template" }
      [join (d.rooted directives).element.toNode]] = out.toList := by
    rw [← Except.ok.inj hout, String.toList_ofList, hjoin, writeAll_joinAll]
  have hevents : ∀ e ∈ flattenAll
      [.element { name := "template" } [join (d.rooted directives).element.toNode]], e.Rereads :=
    rereads_of_read (by simp [writeAll, write, startTag]) (by rw [hwrite]; exact hagain)
  -- A text may have been joined to another, but texts of an accepted text are
  -- never at fault.
  intro e he
  cases htext : e.token.isText with
  | true => exact rereads_of_isText hmark hread htext (mem_of_mem_rooted htext he)
  | false =>
      refine hevents e ?_
      rw [flattenAll_cons, flattenAll_nil, List.append_nil, flatten_named, flattenAll_cons,
        flattenAll_nil, List.append_nil]
      exact List.mem_cons_of_mem _ (List.mem_append_left _ (mem_flatten_join _ htext he))

end FixedPoint

/-- An accepted text has a root, whatever the directives, and the output is a fixed
    point exactly if every event of the root is read again by itself. That is so
    if names and keys have no blank characters and no key begins with an equals
    sign. -/
theorem fixedPoint_iff {source : String} {d : Document}
    (h : Document.parse .faithful source = .ok d) (hmark : source.toList.head? ≠ some '\uFEFF')
    (hsolid : ∀ t ∈ (cut source.toList).tokens, t.Solid) (directives : DirectiveSet) :
    ∃ root, resolve .faithful directives none source = .ok root ∧
      (FixedPoint directives source root ↔ ∀ e ∈ flatten root.element.toNode, e.Rereads) ∧
      ((∀ t ∈ (cut source.toList).tokens, ∀ key ∈ t.keys, key.head? ≠ some '=') →
        FixedPoint directives source root) := by
  rcases parse_eq_ok_iff_read.1 h with ⟨_, hread⟩
  refine ⟨d.rooted directives, resolve_of_parse h directives,
    ⟨rereads_of_fixedPoint hmark h, fixedPoint_of_rereads h⟩, fun hequals => ?_⟩
  exact fixedPoint_of_rereads h (rereads_rooted (rereads_of_keys hmark hread hsolid hequals))

/-- Two texts and an element, put in a container with both directives. -/
theorem fixedPoint_wrapped :
    ∃ root, resolve .faithful ⟨true, true⟩ none "a<!DOCTYPE b>c<d e = '1' />" = .ok root ∧
      FixedPoint ⟨true, true⟩ "a<!DOCTYPE b>c<d e = '1' />" root := by
  have hparse : Document.parse .faithful "a<!DOCTYPE b>c<d e = '1' />" =
      .ok ⟨.faithful, [.text "a", .text "c", .element
        { name := "d"
          attributes :=
            [{ name := "e", value := "1", quote := .single, separator := some " = " }]
          selfClosing := true
          trailing := some " " } []]⟩ := by cbv
  obtain ⟨root, hroot, _, hfixed⟩ :=
    fixedPoint_iff hparse (by decide) (by decide +kernel) ⟨true, true⟩
  exact ⟨root, hroot, hfixed (by decide +kernel)⟩

/-- A key that begins with an equals sign: the output cannot be read. -/
theorem not_fixedPoint :
    ∃ d root, Document.parse .faithful "<a =='1'/>" = .ok d ∧
      "<a =='1'/>".toList.head? ≠ some '\uFEFF' ∧
      (∀ t ∈ (cut "<a =='1'/>".toList).tokens, t.Solid) ∧
      resolve .faithful {} none "<a =='1'/>" = .ok root ∧
      transform { mode := .faithful } "<a =='1'/>" =
        .ok "<template><a =\"='1'\"/></template>" ∧
      ¬ FixedPoint {} "<a =='1'/>" root := by
  have hparse : Document.parse .faithful "<a =='1'/>" = .ok ⟨.faithful, [.element
      { name := "a"
        attributes := [{ name := "", value := "='1'" }]
        selfClosing := true } []]⟩ := by cbv
  have houtput : transform { mode := .faithful } "<a =='1'/>" =
      .ok "<template><a =\"='1'\"/></template>" := by cbv
  refine ⟨_, _, hparse, by decide, by decide +kernel, resolve_of_parse hparse {}, houtput, ?_⟩
  rintro ⟨⟨out, hout, hread⟩, _⟩
  rw [houtput] at hout
  have hrefused : (Document.parse .faithful
      "<template><a =\"='1'\"/></template>").toOption.isNone = true := by decide +kernel
  rw [Except.ok.inj hout, hread] at hrefused
  exact Bool.noConfusion hrefused

end SoleRoot

import SoleRoot.Options
import SoleRoot.Proofs.FixedPoint
import SoleRoot.Proofs.Html.Rereading

/-!
# One Root in a Template

Whether the body of a template is read as one element.

The root of a text is one element, and the body of the template is what is written
of it. A reader of HTML makes one element of that if the root is read as it was
written, which `fits` decides from the tree alone: blocks, lists, tables and choices with
their parts, forms, graphics, formulas, templates and elements that hold text only. A directive
changes nothing in this, since it is an attribute that is read as it is.

Not every root is so. The printer writes the text of a style sheet as it is, and
knows a style sheet by its name alone. Inside graphics and formulas, though, an
element of this name is read like any other, and its text may hold an end tag that
closes the root. `not_singleRoot` has a text with such an element.

## Main definitions

* `SingleRoot`: A text is read as one element of a name.

## Theorems

* `fits_inject`: A root fits with directives if it does without.
* `singleRoot_of_fits`: An element that fits is read as one element.
* `transform_singleRoot`: The output has one root if the root fits.
* `not_singleRoot`: A text whose output has an element and a text.
-/

namespace SoleRoot

open Html

/-- Whether a text is read as HTML that has one element of a name at the top, and
    nothing else. -/
def SingleRoot (body name : String) : Prop :=
  ∃ e : Element, Document.parse .permissive body = .ok ⟨.permissive, [e.toNode]⟩ ∧ e.name = name

section Directives

theorem Html.Writable.declare {t : Tag} (h : Writable t) {name : String}
    (hname : isAttributeName name.toList = true) : Writable (t.declare name) := by
  unfold Tag.declare
  split
  · exact h
  -- A directive is written with a value that no reader changes.
  · have hvalue : "true".toList.all isSteady = true := by decide +kernel
    refine ⟨h.name, fun a ha => ?_⟩
    rcases List.mem_append.1 ha with ha | ha
    · exact h.attributes a ha
    · rw [List.mem_singleton.1 ha]
      exact ⟨hname, hvalue⟩

theorem Html.Writable.foldl_declare {t : Tag} (h : Writable t) {names : List String}
    (hnames : ∀ name ∈ names, isAttributeName name.toList = true) :
    Writable (names.foldl Tag.declare t) :=
  List.foldlRecOn names Tag.declare h fun _ ht name hname => ht.declare (hnames name hname)

theorem isAttributeName_of_mem_names {d : DirectiveSet} {name : String} (h : name ∈ d.names) :
    isAttributeName name.toList = true := by
  rcases DirectiveSet.eq_of_mem_names h with rfl | rfl
  · decide +kernel
  · decide +kernel

theorem Element.name_inject (e : Element) (d : DirectiveSet) : (e.inject d).name = e.name := by
  rcases Tag.exists_attributes_foldl_declare d.names e.toTag with ⟨attributes, h⟩
  have hname := congrArg Tag.name (h e.endTrailing)
  exact hname

/-- An element fits with directives if it does without. -/
theorem fits_inject {raw : Bool} {names : List Name} {e : Element}
    (h : fits raw names e.toNode = true) (d : DirectiveSet) :
    fits raw names (e.inject d).toNode = true := by
  rw [Element.toNode, fits, Bool.and_eq_true, decide_eq_true_eq] at h
  rcases h with ⟨hwritable, hrest⟩
  have hdeclared := hwritable.foldl_declare fun name hname =>
    isAttributeName_of_mem_names (d := d) hname
  rw [Element.toNode, fits, Bool.and_eq_true, decide_eq_true_eq]
  refine ⟨hdeclared, ?_⟩
  -- What is decided from the name and the children is as it was.
  have hname : (e.inject d).toTag.name = e.toTag.name := e.name_inject d
  rw [hname]
  exact hrest

end Directives

section Reading

/-- The item of an element is finished as an element of its name. -/
theorem exists_toNodes_number (parent : Name) (k : Nat) (e : Element) :
    ∃ found : Element, found.name = e.name ∧
      Item.toNodes (Item.gather (numberAll parent k [e.toNode]).1) = [found.toNode] := by
  rw [Element.toNode, numberAll, numberAll, number]
  exact ⟨⟨⟨(childName parent e.name).localName, _, false, none, none⟩, _⟩,
    localName_childName parent e.name, rfl⟩

/-- An element that fits is read by itself as one element of its name. -/
theorem singleRoot_of_fits {e : Element} (h : fits false [.html "html"] e.toNode = true) :
    SingleRoot (e.serialize .permissive) e.name := by
  have hall : fitsAll false [.html "html"] [e.toNode] = true := by
    rw [fitsAll, fitsAll, h]
    rfl
  have hwrite : writeAll false [e.toNode] = write false e.toNode := by
    rw [writeAll, writeAll, List.append_nil]
  -- An element starts with a bracket.
  have hmark : (writeAll false [e.toNode]).head? ≠ some '\uFEFF' := by
    rw [hwrite, Element.toNode, head?_write_element]
    decide
  have hread := read_writeAll hall hmark
  rcases exists_toNodes_number (.html "html") 1 e with ⟨found, hname, hfound⟩
  rw [hwrite, hfound] at hread
  have hserialize : (e.serialize .permissive).toList = write false e.toNode :=
    String.toList_ofList
  refine ⟨found, ?_, hname⟩
  rw [← hread, ← hserialize]
  rfl

end Reading

section Output

/-- Without a hook the output is a template around the text of the root. -/
theorem transform_permissive {source : String} {d : Document}
    (h : Document.parse .permissive source = .ok d) (directives : DirectiveSet) :
    transform { directives } source =
      .ok ("<template>" ++ (d.rooted directives).element.serialize .permissive ++
        "</template>") := by
  have htransform : transform { directives } source =
      .ok (componentSource (d.rooted directives).serialize none) := by
    rw [transform, Options.preprocessor?, Option.bind_none, resolve_of_parse h directives]
    rfl
  -- The document may be held together by a container, but it keeps its mode.
  have hmode : (d.rooted directives).mode = .permissive := by
    rcases Except.ok.inj h with rfl
    exact Document.mode_consolidate _
  rw [htransform, componentSource, Option.bind_none, templateBlock, ResolvedRoot.serialize, hmode]

/-- Any text has an output, which is a template around the text of the root. That is
    read as one element with the root's name if the root fits, whatever the
    directives. -/
theorem transform_singleRoot (directives : DirectiveSet) (source : String) :
    ∃ (d : Document) (root : ResolvedRoot) (body : String),
      Document.parse .permissive source = .ok d ∧
        resolve .permissive directives none source = .ok root ∧
        transform { directives } source = .ok ("<template>" ++ body ++ "</template>") ∧
        (fits false [.html "html"] d.consolidate.element.toNode = true →
          SingleRoot body root.element.name) := by
  have hparse : Document.parse .permissive source = .ok ⟨.permissive, read source.toList⟩ := rfl
  exact ⟨_, _, _, hparse, resolve_of_parse hparse directives,
    transform_permissive hparse directives,
    fun hfits => singleRoot_of_fits (fits_inject hfits directives)⟩

/-- Parts of tables and choices fit where they stand, and so do forms, formulas, templates and
    elements that hold text only. -/
example :
    fits false [.html "html"] (Document.consolidate ⟨.permissive,
      read ("<form><table><caption>a</caption> <tr><th>b<td><select><option>c</select>" ++
        "<pre>d</pre><textarea>&lt;e</textarea><math><mi>f</mi></math><template>" ++
        "</template><script>g</script></table></form>").toList⟩).element.toNode = true := by
  decide +kernel

/-- A list whose end tags are left out, and a text behind it, in a container with
    both directives. -/
theorem transform_singleRoot_list :
    ∃ (root : ResolvedRoot) (body : String),
      resolve .permissive ⟨true, true⟩ none "<ul><li>1<li>2</ul>&#60;p>" = .ok root ∧
        transform { directives := ⟨true, true⟩ } "<ul><li>1<li>2</ul>&#60;p>" =
          .ok ("<template>" ++ body ++ "</template>") ∧
        SingleRoot body root.element.name := by
  rcases transform_singleRoot ⟨true, true⟩ "<ul><li>1<li>2</ul>&#60;p>" with
    ⟨d, root, body, hparse, hresolve, htransform, hsingle⟩
  refine ⟨root, body, hresolve, htransform, hsingle ?_⟩
  rcases Except.ok.inj hparse with rfl
  decide +kernel

/-- The text of the style sheet is an end tag when it is written as it is. -/
theorem not_singleRoot :
    ∃ (root : ResolvedRoot) (body : String),
      resolve .permissive {} none "<math><style>&lt;/math>x</style></math>" = .ok root ∧
        transform {} "<math><style>&lt;/math>x</style></math>" =
          .ok ("<template>" ++ body ++ "</template>") ∧
        ¬ SingleRoot body root.element.name := by
  have hparse : Document.parse .permissive "<math><style>&lt;/math>x</style></math>" =
      .ok ⟨.permissive, read "<math><style>&lt;/math>x</style></math>".toList⟩ := rfl
  refine ⟨_, _, resolve_of_parse hparse {}, transform_permissive hparse {}, ?_⟩
  rintro ⟨e, hsingle, _⟩
  have hbody : (Document.rooted ⟨.permissive, read "<math><style>&lt;/math>x</style></math>".toList⟩
      {}).element.serialize .permissive = "<math><style></math>x</style></math>" := by
    decide +kernel
  -- The end tag closes the formula, and what stands behind it is a text of its own.
  have htwo : (read "<math><style></math>x</style></math>".toList).length = 2 := by
    decide +kernel
  rw [hbody] at hsingle
  have hone := congrArg (fun d : Document => d.nodes.length) (Except.ok.inj hsingle)
  exact Nat.succ_ne_self 1 (htwo.symm.trans hone)

end Output

end SoleRoot

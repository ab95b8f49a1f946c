import SoleRoot.Options
import SoleRoot.Proofs.FixedPoint

/-!
# Where Directives Are Put

The output of a transformation with directives is the output without them, with a
piece of text put in.

The text of an element falls into two parts: its start tag up to the last attribute,
and the rest. An attribute that is added to the element comes at the end of the first
part, and neither part depends on it in any other way. That holds in both dialects,
for elements that close themselves, that hold nothing, or that have white space
recorded at the end of their start tag. Around the text of the root the output is the
same whatever the root is, so the place in the output is the same for all directives.

## Main definitions

* `Tag.opening`: A start tag up to its last attribute.
* `Tag.gap`: The white space between the attributes and the end of the tag.
* `Element.remainder`: The text of an element behind its attributes.
* `Tag.addition`: What a directive adds.

## Theorems

* `Element.serialize_eq`: The two parts of an element's text.
* `Element.opening_inject`: Directives are put behind the attributes.
* `Element.remainder_inject`: They change nothing behind that place.
* `transform_directives`: The output with any directives.
-/

namespace SoleRoot

namespace Tag

/-- The characters of an attribute, with what stands before it. -/
def writeAttribute : Mode → Attribute → List Char
  | .permissive => Html.writeAttribute
  | .faithful => Faithful.writeAttribute

/-- A start tag up to its last attribute. -/
def opening (mode : Mode) (t : Tag) : List Char :=
  '<' :: t.name.toList ++ t.attributes.flatMap (writeAttribute mode)

/-- The white space between the attributes of a start tag and the mark that ends it. -/
def gap (mode : Mode) (t : Tag) : List Char :=
  match mode with
  | .permissive => []
  | .faithful => Faithful.spelling [] t.trailing

/-- The text of a directive, if it is asked for and the tag has no attribute of its
    name. -/
def addition (t : Tag) (asked : Bool) (name : String) : String :=
  if asked && !t.hasAttribute name then " " ++ name ++ "=\"true\"" else ""

/-- A directive stands behind the attributes, in one spelling. -/
theorem opening_declare (mode : Mode) (t : Tag) (name : String) :
    (t.declare name).opening mode = t.opening mode ++ (t.addition true name).toList := by
  cases hname : t.hasAttribute name with
  | true => simp [declare_of_hasAttribute hname, addition, hname]
  | false =>
      -- Both dialects write this attribute alike.
      have hattribute : writeAttribute mode { name, value := "true" } =
          (" " ++ name ++ "=\"true\"").toList := by
        cases mode with
        | permissive =>
            simp [writeAttribute, Html.writeAttribute, Html.escapeValue, Html.escapeValueChar,
              Html.escapeTextChar]
        | faithful => simp [writeAttribute, Faithful.writeAttribute, Quote.toChar]
      rw [declare_of_not_hasAttribute hname, opening, opening, List.flatMap_append,
        List.flatMap_singleton, hattribute, addition, hname]
      simp

/-- Another directive does not change whether one is there. -/
theorem hasAttribute_declare_of_ne {t : Tag} {name other : String} (h : other ≠ name) :
    (t.declare name).hasAttribute other = t.hasAttribute other := by
  cases hname : t.hasAttribute name with
  | true => rw [declare_of_hasAttribute hname]
  | false =>
      have hne : (name == other) = false := beq_eq_false_iff_ne.2 h.symm
      rw [declare_of_not_hasAttribute hname]
      simp [hasAttribute, hne]

end Tag

namespace Element

/-- The text of an element behind its attributes. -/
def remainder (mode : Mode) (e : Element) : List Char :=
  e.gap mode ++
    match mode with
    | .permissive =>
      if Html.voidNames.contains e.name then ['>']
      else
        '>' :: Html.writeAll (Html.rawNames.contains e.name) e.children ++ Html.endTag e.toTag
    | .faithful =>
      if e.selfClosing && e.children.isEmpty then ['/', '>']
      else '>' :: Faithful.writeAll e.children ++ Faithful.endTag e.toTag

theorem serialize_eq (mode : Mode) (e : Element) :
    e.serialize mode = String.ofList (e.opening mode) ++ String.ofList (e.remainder mode) := by
  rw [serialize, Node.serialize, ← String.ofList_append]
  refine congrArg String.ofList ?_
  cases mode with
  | permissive =>
      rw [Node.write, toNode, Html.write, remainder]
      split
      · rfl
      · simp [Tag.opening, Tag.gap, Html.startTag, Tag.writeAttribute]
  | faithful =>
      rw [Node.write, toNode, Faithful.write, remainder]
      split
      · simp [Tag.opening, Tag.gap, Faithful.startTag, Tag.writeAttribute]
      · simp [Tag.opening, Tag.gap, Faithful.startTag, Tag.writeAttribute]

/-- Behind the attributes and the white space the start tag ends. -/
theorem exists_remainder (mode : Mode) (e : Element) :
    ∃ more, e.remainder mode = e.gap mode ++ '>' :: more ∨
      e.remainder mode = e.gap mode ++ '/' :: '>' :: more := by
  cases mode with
  | permissive =>
      rw [remainder]
      split
      · exact ⟨[], .inl rfl⟩
      · exact ⟨_, .inl rfl⟩
  | faithful =>
      rw [remainder]
      split
      · exact ⟨[], .inr rfl⟩
      · exact ⟨_, .inl rfl⟩

theorem opening_inject (mode : Mode) (e : Element) (d : DirectiveSet) :
    (e.inject d).opening mode = e.opening mode ++
      ((e.addition d.pre "v-pre").toList ++ (e.addition d.once "v-once").toList) := by
  rcases d with ⟨once, pre⟩
  -- The first directive does not stand in for the second.
  have hother : (e.toTag.declare "v-pre").addition true "v-once" = e.addition true "v-once" := by
    rw [Tag.addition, Tag.addition, Tag.hasAttribute_declare_of_ne (by decide)]
  have hnone : ∀ name, e.addition false name = "" := fun name => rfl
  cases pre with
  | false =>
      cases once with
      | false =>
          change e.opening mode = _
          rw [hnone, hnone]
          simp
      | true =>
          change (e.toTag.declare "v-once").opening mode = _
          rw [Tag.opening_declare, hnone]
          simp
  | true =>
      cases once with
      | false =>
          change (e.toTag.declare "v-pre").opening mode = _
          rw [Tag.opening_declare, hnone]
          simp
      | true =>
          change ((e.toTag.declare "v-pre").declare "v-once").opening mode = _
          rw [Tag.opening_declare, hother, Tag.opening_declare, List.append_assoc]

theorem remainder_inject (mode : Mode) (e : Element) (d : DirectiveSet) :
    (e.inject d).remainder mode = e.remainder mode := by
  rcases Tag.exists_attributes_foldl_declare d.names e.toTag with ⟨attributes, h⟩
  have htag : (e.inject d).toTag = { e.toTag with attributes } := h e.endTrailing
  have hchildren : (e.inject d).children = e.children := rfl
  -- Nothing behind the attributes is written of them.
  unfold remainder
  rw [htag, hchildren]
  rfl

end Element

section Output

variable {mode : Mode} {preprocessor : Option Preprocessor} {source : String}

/-- Directives are looked at last. -/
theorem resolve_directives (d : DirectiveSet) : resolve mode d preprocessor source =
    (resolve mode {} preprocessor source).map
      fun root => { root with element := root.element.inject d } := by
  unfold resolve
  cases preprocess preprocessor source with
  | error f => rfl
  | ok text =>
      change ((Document.parse mode text).mapError Failure.malformed >>= _) =
        Except.map _ ((Document.parse mode text).mapError Failure.malformed >>= _)
      cases (Document.parse mode text).mapError Failure.malformed with
      | error f => rfl
      | ok document => rfl

theorem mode_of_resolve {d : DirectiveSet} {root : ResolvedRoot}
    (h : resolve mode d preprocessor source = .ok root) : root.mode = mode := by
  unfold resolve at h
  rcases bind_eq_ok_iff.1 h with ⟨text, _, h⟩
  rcases bind_eq_ok_iff.1 h with ⟨document, hparse, h⟩
  rcases map_eq_ok_iff.1 (mapError_eq_ok_iff.1 hparse) with ⟨nodes, _, rfl⟩
  rcases Except.ok.inj h with rfl
  exact Document.mode_consolidate _

/-- What stands around the text of a root does not depend on the root. -/
theorem exists_componentSource (registry : Option Registry) :
    ∃ tail, ∀ markup, componentSource markup registry = "<template>" ++ markup ++ tail := by
  unfold componentSource
  cases registry.bind Registry.scriptBlock? with
  | none => exact ⟨"</template>", fun _ => rfl⟩
  | some script =>
      exact ⟨"</template>" ++ "\n" ++ script, fun _ => by simp [templateBlock, String.append_assoc]⟩

theorem transform_eq_map (o : Options) (d : DirectiveSet) (source : String) :
    transform { o with directives := d } source =
      (resolve o.mode {} o.preprocessor? source).map fun root =>
        componentSource ((root.element.inject d).serialize root.mode) o.registry? := by
  -- Directives do not change what is read.
  have hresolve : resolve o.mode d o.preprocessor? source = _ := resolve_directives d
  change resolve o.mode d o.preprocessor? source >>= _ = _
  rw [hresolve]
  cases resolve o.mode {} o.preprocessor? source with
  | error f => rfl
  | ok root => rfl

/-- Directives only put text into the output, in one place whatever they are. If
    there is no output without directives, then there is none with any, for the same
    reason. If there is one, it is divided inside the start tag of the root, directly
    behind the attributes, and the directives that are asked for and missing stand
    between the parts. -/
theorem transform_directives (o : Options) (source : String) :
    (∀ f, transform { o with directives := {} } source = .error f →
      ∀ d, transform { o with directives := d } source = .error f) ∧
    (∀ out, transform { o with directives := {} } source = .ok out →
      ∃ root start rest tail, resolve o.mode {} o.preprocessor? source = .ok root ∧
        root.serialize = start ++ rest ∧ out = ("<template>" ++ start) ++ (rest ++ tail) ∧
        start.toList = root.element.opening o.mode ∧
        (∃ more, rest.toList = root.element.gap o.mode ++ '>' :: more ∨
          rest.toList = root.element.gap o.mode ++ '/' :: '>' :: more) ∧
        ∀ d, transform { o with directives := d } source =
          .ok (("<template>" ++ start) ++ root.element.addition d.pre "v-pre" ++
            root.element.addition d.once "v-once" ++ (rest ++ tail))) := by
  refine ⟨fun f hf d => ?_, fun out hout => ?_⟩
  · rw [transform_eq_map] at hf ⊢
    cases hresolve : resolve o.mode {} o.preprocessor? source with
    | error f' =>
        rw [hresolve] at hf
        exact congrArg Except.error (Except.error.inj hf)
    | ok root =>
        rw [hresolve] at hf
        exact absurd hf (by simp [Except.map])
  · rw [transform_eq_map] at hout
    rcases map_eq_ok_iff.1 hout with ⟨root, hresolve, hsource⟩
    -- The mode decides how the root is written, so it has to be that of the options.
    have hmode := mode_of_resolve hresolve
    rcases exists_componentSource o.registry? with ⟨tail, htail⟩
    rw [htail, hmode] at hsource
    refine ⟨root, String.ofList (root.element.opening o.mode),
      String.ofList (root.element.remainder o.mode), tail, hresolve, ?_, ?_,
      String.toList_ofList, ?_, fun d => ?_⟩
    · rw [ResolvedRoot.serialize, hmode]
      exact root.element.serialize_eq o.mode
    · rw [← hsource]
      change "<template>" ++ root.element.serialize o.mode ++ tail = _
      rw [Element.serialize_eq]
      simp only [String.append_assoc]
    · rw [String.toList_ofList]
      exact root.element.exists_remainder o.mode
    · rw [transform_eq_map, hresolve]
      refine congrArg Except.ok ?_
      beta_reduce
      rw [htail, hmode, Element.serialize_eq, Element.opening_inject, Element.remainder_inject,
        String.ofList_append, String.ofList_append, String.ofList_toList, String.ofList_toList]
      simp only [String.append_assoc]

/-- An element that closes itself and declares one directive already gets the other
    one, in front of the white space at its end. -/
theorem transform_directives_declared :
    transform ⟨{}, .faithful, none⟩ "<a v-pre='' />" = .ok "<template><a v-pre='' /></template>" ∧
      transform ⟨⟨true, true⟩, .faithful, none⟩ "<a v-pre='' />" =
        .ok "<template><a v-pre='' v-once=\"true\" /></template>" := by
  have hout : transform ⟨{}, .faithful, none⟩ "<a v-pre='' />" =
      .ok "<template><a v-pre='' /></template>" := by
    decide +kernel
  have hroot : (resolve .faithful {} none "<a v-pre='' />").map
      (fun root => (root.element.opening .faithful, root.element.hasAttribute "v-pre",
        root.element.hasAttribute "v-once")) = .ok ("<a v-pre=''".toList, true, false) := by
    decide +kernel
  rcases (transform_directives ⟨{}, .faithful, none⟩ "<a v-pre='' />").2 _ hout with
    ⟨root, start, rest, tail, hresolve, -, hdivided, hstart, -, hall⟩
  change resolve .faithful {} none "<a v-pre='' />" = .ok root at hresolve
  rw [hresolve] at hroot
  have hvalues := Except.ok.inj hroot
  simp only [Prod.mk.injEq] at hvalues
  rcases hvalues with ⟨hopening, hpre, honce⟩
  have heq : start = "<a v-pre=''" := String.toList_inj.1 (hstart.trans hopening)
  have hrest : rest ++ tail = " /></template>" := by
    rw [heq] at hdivided
    exact (String.append_right_inj _).1 hdivided.symm
  refine ⟨hout, (hall ⟨true, true⟩).trans ?_⟩
  rw [heq, hrest, Tag.addition, Tag.addition, hpre, honce]
  rfl

end Output

end SoleRoot

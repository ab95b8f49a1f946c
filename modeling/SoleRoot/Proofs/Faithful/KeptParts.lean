import SoleRoot.Proofs.Faithful.Acceptance

/-!
# Kept Parts of a Tag

What the elements of a tree keep of the tags they were read from.

The strict reading decides whether a tag is good, and the reading that keeps
spelling fills the tree. The two have their own ideas of where a key ends and of
what white space is, so what was checked need not be what is kept. `Keeps` says
when it is. The attributes are the declarations, one for one, exactly if no key
holds a blank character or starts with an equals sign. The white space of the end
tag is what was trimmed from its name, exactly if the name does not end with
a blank character. Without these two conditions two attributes of an element may
even bear the same name.

`Builds` relates the tokens of a text and the nodes of a tree: every element has
its own tags, and between them stands what its children were read from. It
takes what it asks of an element and its tags as a parameter, so a fact that is
proved of each tag becomes a fact about each element.

## Main definitions

* `Builds`: Tokens and the nodes they amount to, element by element.
* `trimmed`: What is trimmed from the name of an end tag.
* `Declaration.Plain`: A declaration whose key both readings end alike.
* `Keeps`: What an element keeps of its tags.

## Theorems

* `builds_of_flattenAll`: Nodes whose events are those of the tokens.
* `isNameChar_of_mem_scan`: The names that are recorded.
* `map_parts_scan_iff`: When the attributes are the declarations.
* `trailing_eq_trimmed_iff`: When the white space that is kept is what was trimmed.
* `parse_builds`: What every element of a tree keeps of its tags.
-/

namespace SoleRoot

namespace Faithful

namespace Token

/-- The node that a token is by itself, if it is neither a tag nor left out. -/
def leaf? : Token → Option Node
  | text content => some (.text (String.ofList content))
  | comment content => some (.comment (String.ofList content))
  | cdata content => some (.cdata (String.ofList content))
  | _ => none

end Token

/-- Whether nodes are what tokens amount to, and each element of them, its start
    tag and its end tag are related. An element that was read from one tag has no
    end tag. Document types and instructions leave nothing in the tree. -/
inductive Builds (related : Tag → List Char → Option (List Char) → Prop) :
    List Token → List Node → Prop where
  | nil : Builds related [] []
  | dropped {t : Token} {ts : List Token} {ns : List Node} :
      t.isKept = false → Builds related ts ns → Builds related (t :: ts) ns
  | leaf {t : Token} {n : Node} {ts : List Token} {ns : List Node} :
      t.leaf? = some n → Builds related ts ns → Builds related (t :: ts) (n :: ns)
  | single {tag : Tag} {start : List Char} {ts : List Token} {ns : List Node} :
      related tag start none → Builds related ts ns →
        Builds related (.selfClosingTag start :: ts) (.element tag [] :: ns)
  | element {tag : Tag} {start stop : List Char} {inside ts : List Token}
      {children ns : List Node} :
      related tag start (some stop) → Builds related inside children → Builds related ts ns →
        Builds related (.startTag start :: (inside ++ .endTag stop :: ts))
          (.element tag children :: ns)

/-- What an element is read as from its tags. -/
def builtTag (start : List Char) (stop? : Option (List Char)) : Tag :=
  { spelledTag stop?.isNone start with
    endTrailing := stop?.bind fun stop => unusual? [] (Text.trailing Text.isBlank stop) }

theorem exists_of_flattenAll_cons {ns : List Node} {e : Event} {es : List Event}
    (h : flattenAll ns = e :: es) :
    ∃ n rest, ns = n :: rest ∧ flatten n ++ flattenAll rest = e :: es := by
  cases ns with
  | nil => simp at h
  | cons n rest => exact ⟨n, rest, rfl, by rw [← flattenAll_cons, h]⟩

theorem eq_nil_of_flattenAll {ns : List Node} (h : flattenAll ns = []) : ns = [] :=
  flattenAll_injective (h.trans flattenAll_nil.symm)

/-- The only token that stands for the start of an element is its start tag, and
    likewise for the end. -/
theorem eq_of_ownEvent?_start {t : Token} {tag : Tag} (h : t.ownEvent? = some (.start tag)) :
    ∃ start, t = .startTag start ∧ spelledTag false start = tag := by
  cases t <;> simp_all [Token.ownEvent?, Token.event?]

theorem eq_of_ownEvent?_single {t : Token} {tag : Tag} (h : t.ownEvent? = some (.single tag)) :
    ∃ start, t = .selfClosingTag start ∧ spelledTag true start = tag := by
  cases t <;> simp_all [Token.ownEvent?, Token.event?]

theorem eq_of_ownEvent?_stop {t : Token} {name : String} {space : Option String}
    (h : t.ownEvent? = some (.stop name space)) :
    ∃ stop, t = .endTag stop ∧ String.ofList (endName stop) = name ∧
      unusual? [] (Text.trailing Text.isBlank stop) = space := by
  cases t with
  | endTag stop =>
      simp only [Token.ownEvent?, Token.event?, endSpace_raw, Option.some.injEq,
        Event.stop.injEq] at h
      exact ⟨stop, rfl, h⟩
  | _ => simp [Token.ownEvent?, Token.event?] at h

/-- The end of an element in the events of tokens is that of an end tag, and what comes
    before it and after it are the events of the tokens there. -/
theorem exists_of_filterMap_stop {ts : List Token} {es fs : List Event} {name : String}
    {space : Option String} (h : ts.filterMap Token.ownEvent? = es ++ .stop name space :: fs) :
    ∃ inside stop rest, ts = inside ++ .endTag stop :: rest ∧
      inside.filterMap Token.ownEvent? = es ∧ rest.filterMap Token.ownEvent? = fs ∧
      String.ofList (endName stop) = name ∧
      unusual? [] (Text.trailing Text.isBlank stop) = space := by
  rcases List.filterMap_eq_append_iff.1 h with ⟨first, second, rfl, hfirst, hsecond⟩
  rcases List.filterMap_eq_cons_iff.1 hsecond with ⟨skipped, u, rest, rfl, hskipped, hu, hrest⟩
  rcases eq_of_ownEvent?_stop hu with ⟨stop, rfl, hname, hspace⟩
  -- Tokens without an event that stand before the end tag are inside the element, too.
  refine ⟨first ++ skipped, stop, rest, by rw [List.append_assoc], ?_, hrest, hname, hspace⟩
  rw [List.filterMap_append, hfirst, List.filterMap_eq_nil_iff.2 hskipped, List.append_nil]

theorem leaf?_of_ownEvent? {t : Token} {n : Node}
    (hleaf : ∀ tag children, n ≠ .element tag children) {e : Event} (he : flatten n = [e])
    (h : t.ownEvent? = some e) : t.leaf? = some n := by
  cases n with
  | element tag children => exact absurd rfl (hleaf tag children)
  | text content | comment content | cdata content =>
      rw [flatten] at he
      rcases List.cons.inj he with ⟨rfl, _⟩
      cases t <;> simp_all [Token.ownEvent?, Token.event?, Token.leaf?]

/-- Nodes whose events are those of the tokens are what the tokens amount to, and
    each element is read from its own tags. -/
theorem builds_of_flattenAll {related : Tag → List Char → Option (List Char) → Prop}
    (hrelated : ∀ start stop?, (∃ s : Clauses, tagRest start = s.text ∧ s.Valid) →
      (∀ stop ∈ stop?, endName stop = tagName start) → related (builtTag start stop?) start stop?)
    {ts : List Token} (hvalid : ∀ t ∈ ts, t.Valid) {ns : List Node}
    (h : flattenAll ns = ts.filterMap Token.ownEvent?) : Builds related ts ns := by
  match ts with
  | [] =>
      rw [eq_nil_of_flattenAll h]
      exact .nil
  | t :: ts =>
      have hrest : ∀ u ∈ ts, u.Valid := fun u hu => hvalid u (List.mem_cons_of_mem t hu)
      cases hevent : t.ownEvent? with
      | none =>
          rw [List.filterMap_cons_none hevent] at h
          exact .dropped (Token.ownEvent?_eq_none_iff.1 hevent)
            (builds_of_flattenAll hrelated hrest h)
      | some e =>
          rw [List.filterMap_cons_some hevent] at h
          rcases exists_of_flattenAll_cons h with ⟨n, after, rfl, hn⟩
          cases n with
          | text content | comment content | cdata content =>
              rw [flatten, List.singleton_append] at hn
              rcases List.cons.inj hn with ⟨rfl, hafter⟩
              exact .leaf (leaf?_of_ownEvent? (by simp) (by rw [flatten]) hevent)
                (builds_of_flattenAll hrelated hrest hafter)
          | element tag children =>
              by_cases hsingle : (tag.selfClosing && children.isEmpty) = true
              · rw [flatten, if_pos hsingle, List.singleton_append] at hn
                rcases List.cons.inj hn with ⟨rfl, hafter⟩
                rcases eq_of_ownEvent?_single hevent with ⟨start, rfl, rfl⟩
                have hchildren : children = [] :=
                  List.isEmpty_iff.1 (Bool.and_eq_true _ _ ▸ hsingle).2
                rw [hchildren]
                exact .single (hrelated start none (hvalid _ List.mem_cons_self) (by simp))
                  (builds_of_flattenAll hrelated hrest hafter)
              · rw [flatten, if_neg hsingle, List.cons_append, List.append_assoc] at hn
                rcases List.cons.inj hn with ⟨rfl, hinner⟩
                rcases eq_of_ownEvent?_start hevent with ⟨start, rfl, htag⟩
                -- The tokens behind the start tag are those of the children, the end tag,
                -- and those of the nodes behind.
                rcases exists_of_filterMap_stop hinner.symm with
                  ⟨inside, stop, behind, hts, hinside, hbehind, hname, hspace⟩
                have hlength : ts.length = inside.length + (behind.length + 1) := by
                  rw [hts, List.length_append, List.length_cons]
                have hsame : endName stop = tagName start :=
                  String.ofList_injective (hname.trans (congrArg Tag.name htag).symm)
                have hbuilt : tag = builtTag start (some stop) := by
                  rw [builtTag, Option.isNone_some, htag, Option.bind_some, hspace]
                have hvalidInside : ∀ u ∈ inside, u.Valid := fun u hu =>
                  hrest u (hts ▸ List.mem_append_left _ hu)
                have hvalidBehind : ∀ u ∈ behind, u.Valid := fun u hu =>
                  hrest u (hts ▸ List.mem_append_right _ (List.mem_cons_of_mem _ hu))
                rw [hts, hbuilt]
                refine .element (hrelated start (some stop) (hvalid _ List.mem_cons_self) ?_)
                  (builds_of_flattenAll hrelated hvalidInside hinside.symm)
                  (builds_of_flattenAll hrelated hvalidBehind hbehind.symm)
                rintro _ ⟨⟩
                exact hsame
termination_by ts.length
decreasing_by
  all_goals
    simp only [List.length_cons]
    omega

/-- What is trimmed from the name of an end tag. -/
def trimmed (content : List Char) : List Char :=
  content.drop (endName content).length

theorem endName_append_trimmed (content : List Char) :
    endName content ++ trimmed content = content := by
  have hprefix : endName content <+: content := by
    unfold endName
    split
    · exact List.prefix_rfl
    · exact ⟨_, Text.trimEnd_append_trailing Text.isXmlSpace content⟩
  exact List.prefix_iff_eq_append.1 hprefix

theorem isXmlSpace_of_mem_trimmed {content : List Char} :
    ∀ c ∈ trimmed content, Text.isXmlSpace c = true := by
  unfold trimmed endName
  split
  · simp
  · have hsplit := Text.trimEnd_append_trailing Text.isXmlSpace content
    have htrimmed : content.drop (Text.trimEnd Text.isXmlSpace content).length =
        Text.trailing Text.isXmlSpace content :=
      (congrArg (List.drop _) hsplit).symm.trans List.drop_left
    rw [htrimmed]
    exact fun c hc => Text.of_mem_trailing c hc

/-- The blank characters at the end of an end tag are what is trimmed from its
    name exactly if the name does not end with one. -/
theorem trailing_eq_trimmed_iff (content : List Char) :
    Text.trailing Text.isBlank content = trimmed content ↔
      ∀ c ∈ (endName content).getLast?, Text.isBlank c = false := by
  have hsplit := endName_append_trimmed content
  have hblank : ∀ c ∈ trimmed content, Text.isBlank c = true := fun c hc =>
    Text.isBlank_of_isXmlSpace (isXmlSpace_of_mem_trimmed c hc)
  constructor
  · intro h c hc
    rcases List.getLast?_eq_some_iff.1 hc with ⟨start, hname⟩
    by_contra hspace
    -- The last character of the name would be one of them.
    have hall : ∀ d ∈ (trimmed content).reverse, Text.isBlank d = true := fun d hd =>
      hblank d (List.mem_reverse.1 hd)
    have hreverse : content.reverse = (trimmed content).reverse ++ c :: start.reverse := by
      calc content.reverse = (endName content ++ trimmed content).reverse := by rw [hsplit]
        _ = (trimmed content).reverse ++ c :: start.reverse := by
            rw [hname, List.reverse_append, List.reverse_concat]
    have hlength := congrArg List.length h
    rw [Text.trailing, hreverse, List.takeWhile_append_of_pos hall,
      List.takeWhile_cons_of_pos (by simpa using hspace)] at hlength
    simp only [List.length_reverse, List.length_append, List.length_cons] at hlength
    omega
  · intro h
    have htrailing := Text.trailing_append h hblank
    rwa [hsplit] at htrailing

theorem unusual?_injective (usual : List Char) {a b : List Char}
    (h : unusual? usual a = unusual? usual b) : a = b := by
  rw [← spelling_unusual? usual a, h, spelling_unusual?]

/-- What an attribute says, the white space around its parts left out. -/
def parts (a : Attribute) : List Char × List Char × Quote :=
  (a.name.toList, a.value.toList, a.quote)

namespace Declaration

/-- Whether both readings end the key of a declaration at the same place. -/
def Plain (d : Declaration) : Prop :=
  d.key.head? ≠ some '=' ∧ ∀ c ∈ d.key, Text.isBlank c = false

end Declaration

/-- The names that are recorded hold no equals sign and no blank character. -/
theorem isNameChar_of_mem_scan {cs : List Char} :
    ∀ a ∈ (scan cs).1, ∀ c ∈ a.name.toList, isNameChar c = true := by
  by_cases hblank : ∀ c ∈ cs, Text.isBlank c = true
  · rw [scan_of_blank hblank]
    simp
  · obtain ⟨c, behind, hdrop⟩ : ∃ c behind, cs.dropWhile Text.isBlank = c :: behind :=
      List.exists_cons_of_ne_nil fun hnil => hblank (List.dropWhile_eq_nil_iff.1 hnil)
    have hc : Text.isBlank c = false := Text.not_head_dropWhile c (by rw [hdrop]; rfl)
    -- The blank characters and one attribute are cut off, and the rest is shorter.
    have hshorter := length_scanOne_lt (cs.takeWhile Text.isBlank) hc behind
    have hlength : (c :: behind).length ≤ cs.length :=
      hdrop ▸ (List.dropWhile_suffix Text.isBlank).length_le
    rw [scan_of_dropWhile_eq_cons hdrop]
    intro a ha
    rcases List.mem_cons.1 ha with rfl | ha
    · intro d hd
      rw [scanOne, String.toList_ofList] at hd
      exact List.mem_takeWhile_imp hd
    · exact isNameChar_of_mem_scan a ha
termination_by cs.length

/-- The attributes that are recorded of a valid section are its declarations
    exactly if both readings end each key at the same place. -/
theorem map_parts_scan_iff {nameSize : Nat} {cs : List Char} {ds : List Declaration}
    (h : declarations nameSize cs = .ok ds) :
    (scan cs).1.map parts = ds.map Declaration.parts ↔ ∀ d ∈ ds, d.Plain := by
  constructor
  · -- Every key is one of the names that are recorded.
    intro hsame d hd
    have hmem : d.parts ∈ (scan cs).1.map parts := hsame ▸ List.mem_map_of_mem hd
    rcases List.mem_map.1 hmem with ⟨a, ha, hparts⟩
    have hkey : d.key = a.name.toList := (congrArg Prod.fst hparts).symm
    have hname : ∀ c ∈ d.key, c ≠ '=' ∧ Text.isBlank c = false := fun c hc => by
      simpa [isNameChar] using isNameChar_of_mem_scan a ha c (hkey ▸ hc)
    exact ⟨fun hhead => (hname '=' (List.mem_of_mem_head? hhead)).1 rfl,
      fun c hc => (hname c hc).2⟩
  · -- The section is made up of clauses, and plain clauses are recorded one by one.
    intro hplain
    rcases exists_clauses_of_declarations h with ⟨s, rfl, _, hparts⟩
    have hclauses : s.Plain := by
      intro c hc
      have hmem : c.parts ∈ ds.map Declaration.parts := hparts ▸ List.mem_map_of_mem hc
      rcases List.mem_map.1 hmem with ⟨d, hd, hsame⟩
      have hkey : d.key = c.first :: c.others := congrArg Prod.fst hsame
      rcases hplain d hd with ⟨hequals, hspace⟩
      rw [hkey] at hequals hspace
      exact ⟨fun hfirst => hequals (congrArg some hfirst), hspace⟩
    rw [Clauses.scan_text hclauses, hparts, List.map_map]
    exact List.map_congr_left fun c _ => by
      simp [parts, Clause.toAttribute, Clause.parts]

theorem nodup_names_of_map_parts {attributes : List Attribute} {ds : List Declaration}
    (h : attributes.map parts = ds.map Declaration.parts)
    (hkeys : (ds.map Declaration.key).Nodup) : (attributes.map Attribute.name).Nodup := by
  refine List.Nodup.of_map String.toList ?_
  have hnames : (attributes.map Attribute.name).map String.toList =
      (attributes.map parts).map Prod.fst := by
    rw [List.map_map, List.map_map]
    rfl
  rwa [hnames, h, map_fst_parts]

/-- What an element keeps of its tags. `start` is the content of its start tag, and
    `stop?` that of its end tag if it has one. -/
structure Keeps (tag : Tag) (start : List Char) (stop? : Option (List Char)) : Prop where
  name : tag.name.toList = tagName start
  /-- The attributes are the declarations, in order, exactly if these are plain. -/
  attributes : ∃ ds, declarations (Text.byteSize (tagName start)) (tagRest start) = .ok ds ∧
    (ds.map Declaration.key).Nodup ∧
    (tag.attributes.map parts = ds.map Declaration.parts ↔ ∀ d ∈ ds, d.Plain) ∧
    ((∀ d ∈ ds, d.Plain) → (tag.attributes.map Attribute.name).Nodup)
  stop_name : ∀ stop ∈ stop?, endName stop = tagName start
  /-- The white space of the end tag is what was trimmed from its name exactly if
      the name does not end with a blank character. -/
  endTrailing : tag.endTrailing = stop?.bind (unusual? [] ∘ trimmed) ↔
    ∀ stop ∈ stop?, ∀ c ∈ (endName stop).getLast?, Text.isBlank c = false

theorem keeps_builtTag {start : List Char} {stop? : Option (List Char)}
    (hvalid : ∃ s : Clauses, tagRest start = s.text ∧ s.Valid)
    (hname : ∀ stop ∈ stop?, endName stop = tagName start) :
    Keeps (builtTag start stop?) start stop? where
  name := String.toList_ofList
  attributes := by
    rcases (exists_declarations_iff (Text.byteSize (tagName start))).2 hvalid with ⟨ds, hds⟩
    rcases exists_clauses_of_declarations hds with ⟨s, _, hs, hparts⟩
    have hkeys : (ds.map Declaration.key).Nodup := by
      rw [← map_fst_parts, hparts, List.map_map]
      exact hs.keys_nodup
    refine ⟨ds, hds, hkeys, map_parts_scan_iff hds, fun hplain => ?_⟩
    exact nodup_names_of_map_parts ((map_parts_scan_iff hds).2 hplain) hkeys
  stop_name := hname
  endTrailing := by
    cases stop? with
    | none => simp [builtTag]
    | some stop =>
        have hiff := trailing_eq_trimmed_iff stop
        simp only [builtTag, Option.bind_some, Function.comp_apply, Option.mem_def,
          Option.some.injEq, forall_eq']
        exact ⟨fun h => hiff.1 (unusual?_injective [] h), fun h => congrArg _ (hiff.2 h)⟩

end Faithful

open Faithful

/-- What the elements of an accepted text keep of their tags. The attributes of an
    element are the declarations that were checked, in order, with their raw values
    and their quotes, exactly if no key holds a blank character or starts with an
    equals sign, and then no two have one name. What is kept of an end tag is the
    white space that was trimmed from its name exactly if the name does not end with
    a blank character. -/
theorem parse_builds {source : String} {d : Document} (hmark : source.toList.head? ≠ some '\uFEFF')
    (h : Document.parse .faithful source = .ok d) :
    Builds Keeps (cut source.toList).tokens d.nodes := by
  rcases parse_eq_ok_iff_read.1 h with ⟨_, hread⟩
  rcases (read_eq_ok_iff_of_unmarked hmark).1 hread with ⟨hacceptable, hevents⟩
  exact builds_of_flattenAll (fun _ _ => keeps_builtTag) hacceptable.valid hevents

/-- A text with a space at the end of its end tag. -/
theorem parse_builds_spaced :
    "<a b='1'></a >".toList.head? ≠ some '\uFEFF' ∧
      ∃ d, Document.parse .faithful "<a b='1'></a >" = .ok d ∧
        Builds Keeps (cut "<a b='1'></a >".toList).tokens d.nodes := by
  have hmark : "<a b='1'></a >".toList.head? ≠ some '\uFEFF' := by decide
  have hparse : Document.parse .faithful "<a b='1'></a >" = .ok ⟨.faithful, [.element
      { name := "a", attributes := [{ name := "b", value := "1", quote := .single }],
        endTrailing := some " " } []]⟩ := by cbv
  exact ⟨hmark, _, hparse, parse_builds hmark hparse⟩

/-- Behind a key that holds a no-break space two attributes are kept under one name,
    and the one at the end of a name is kept as white space too, although nothing was
    trimmed. -/
theorem parse_builds_ne :
    ∃ tag start stop ds,
      Document.parse .faithful "<a\u00A0 b='1' b\u00A0='2'></a\u00A0>" =
        .ok ⟨.faithful, [.element tag []]⟩ ∧
      (cut "<a\u00A0 b='1' b\u00A0='2'></a\u00A0>".toList).tokens =
        [.startTag start, .endTag stop] ∧
      declarations (Text.byteSize (tagName start)) (tagRest start) = .ok ds ∧
      tag.attributes.map parts ≠ ds.map Declaration.parts ∧
      ¬ (tag.attributes.map Attribute.name).Nodup ∧
      unusual? [] (trimmed stop) = none ∧ tag.endTrailing = some "\u00A0" := by
  refine ⟨{ name := "a\u00A0",
            attributes := [{ name := "b", value := "1", quote := .single },
              { name := "b", value := "2", quote := .single, separator := some "\u00A0=" }],
            endTrailing := some "\u00A0" },
    "a\u00A0 b='1' b\u00A0='2'".toList, "a\u00A0".toList,
    [⟨['b'], ['1'], .single, 4⟩, ⟨['b', '\u00A0'], ['2'], .single, 10⟩],
    by cbv, by cbv, by cbv, by decide, by decide, by cbv, rfl⟩

end SoleRoot

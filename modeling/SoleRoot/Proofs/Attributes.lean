import Mathlib.Data.List.Nodup
import SoleRoot.Proofs.Html.Reordering
import SoleRoot.Proofs.Html.StartTags
import SoleRoot.Pipeline

/-!
# Attributes of What Is Read

Where the attributes of an element come from, in which order they stand, and how they
are told apart.

All elements of a finished tree, at any depth, are finished items, and of an item it is
known which start tag it stems from. Only the few elements that no start tag asked for
stem from none, and they have no attributes. No two elements stem from one start tag,
unless they are formatting elements, which may be opened again.

A start tag has no two attributes of one name. Inside graphics and formulas some names
are respelled, and some are split in two: the part before the colon says which namespace
the attribute belongs to. Neither makes one attribute of two. Names that are respelled
differ in more than their case, and a name is split in a way of its own.

But only the part behind the colon is the name of the finished attribute. Attributes of
different namespaces can then have one name. In the namespace of HTML nothing is split,
so there all names differ.

An element does not keep the order of its start tag. Its attributes are stored in the
order of their qualified names, so of an element of HTML they stand as they were written
only if they were written in the order of their names.

## Main definitions

* `Node.tags`, `Node.tagsAll`: The tags of all elements, at any depth.
* `Attribute.expandedName`: What attributes are told apart by.
* `StemsFrom`: An element has the attributes of a start tag.
* `OwnedBy`: An element stems from the start tag at a place of a list, or from none.

## Theorems

* `Foreign.nodup_expandedNames`: Different names stay different.
* `StemsFrom.names_eq_iff`: When attributes of HTML stand as they were written.
* `parse_attributes`: The attributes of all elements.
* `parse_attributes_disordered`: Attributes in another order, and two of one name.
-/

namespace SoleRoot

namespace Node

mutual

/-- The tags of a node's elements, at any depth. -/
def tags : Node → List Tag
  | .element tag children => tag :: tagsAll children
  | .text _ => []
  | .comment _ => []
  | .cdata _ => []

/-- The tags of all elements of a list of nodes, at any depth. -/
def tagsAll : List Node → List Tag
  | [] => []
  | n :: ns => tags n ++ tagsAll ns

end

end Node

namespace Html

/-- The namespace and the local name of an attribute. -/
def Attribute.expandedName (a : Attribute) : String × String :=
  (a.space, a.name)

/-- Whether an element has the attributes of a start tag that names it, each of them once,
    in the order of their qualified names. They are told apart by their namespaces and
    local names. -/
structure StemsFrom (tag : TagToken) (n : Name) (t : Tag) : Prop where
  names : tag.Names n
  name : t.name = n.localName
  attributes : ∃ sorted : List Attribute,
    sorted.Perm (Foreign.attributesIn n.space tag.attributes) ∧
      (sorted.Pairwise fun a b => a.precedes b = true) ∧
      t.attributes = sorted.map Attribute.finished
  distinct : ((Foreign.attributesIn n.space tag.attributes).map Attribute.expandedName).Nodup

/-- Whether an element stems from the start tag at a place of a list. Without a place it
    is one that no start tag asked for, and has no attributes. In the namespace of HTML no
    two attributes have one name, and they stand as they were written just if they were
    written in the order of their names. -/
def OwnedBy (tags : List TagToken) (t : Tag) : Option Nat → Prop
  | none => t.name ∈ impliedNames ∧ t.attributes = []
  | some place => ∃ tag n, tags[place]? = some tag ∧ StemsFrom tag n t ∧
      (n.space = .html → (t.attributes.map (·.name)).Nodup ∧
        (t.attributes.map (·.name) = tag.attributes.map Prod.fst ↔
          (tag.attributes.map Prod.fst).Pairwise (Attribute.inOrder · ·)))

section Names

namespace Foreign

variable {attributes : List (String × String)}

/-- Respelling only changes the case. -/
theorem toLower_respell (table : List String) {name : String} (h : name.toLower = name) :
    (respell table name).toLower = name := by
  unfold respell
  cases hfind : table.find? fun spelling => spelling.toLower == name with
  | none => exact h
  | some spelling =>
      have hsame := List.find?_some hfind
      exact beq_iff_eq.1 hsame

theorem mem_of_lookup {w : String} {v : Option String × String × String}
    (h : qualifiedNames.lookup w = some v) : (w, v) ∈ qualifiedNames := by
  rcases List.lookup_eq_some_iff.1 h with ⟨before, behind, heq, _⟩
  rw [heq]
  exact List.mem_append_right _ List.mem_cons_self

/-- Names that are split have a namespace, each in its own way. -/
theorem qualifiedNames_spec : ∀ e ∈ qualifiedNames, e.2.2.1 ≠ "" ∧
    ∀ e' ∈ qualifiedNames, e.2.2 = e'.2.2 → e.1 = e'.1 := by
  decide +kernel

/-- Splitting names keeps them apart. -/
theorem qualify_injective {a a' : String × String}
    (h : (qualify a).expandedName = (qualify a').expandedName) : a.1 = a'.1 := by
  unfold qualify Attribute.expandedName at h
  split at h
  · rename_i hlookup
    have hmem := mem_of_lookup hlookup
    split at h
    · rename_i hlookup'
      exact (qualifiedNames_spec _ hmem).2 _ (mem_of_lookup hlookup') h
    · exact absurd (Prod.mk.inj h).1 (qualifiedNames_spec _ hmem).1
  · -- A name that is not split has no namespace, so the other one is not split either.
    split at h
    · rename_i hlookup'
      have hmem' := mem_of_lookup hlookup'
      exact absurd (Prod.mk.inj h).1.symm (qualifiedNames_spec _ hmem').1
    · exact (Prod.mk.inj h).2

theorem nodup_respelled (table : List String) (h : Named attributes) :
    ((attributes.map fun a => qualify (respell table a.1, a.2)).map
      Attribute.expandedName).Nodup := by
  rw [List.map_map]
  have hdistinct := List.pairwise_map.1 h.distinct
  refine List.pairwise_map.2 (hdistinct.imp_of_mem fun {a a'} ha ha' hne heq => hne ?_)
  -- The names as they are written come back in lower case.
  have hrespelled := congrArg String.toLower (qualify_injective heq)
  rwa [toLower_respell table (h.lowered a ha), toLower_respell table (h.lowered a' ha')]
    at hrespelled

/-- Different names stay different in any namespace. -/
theorem nodup_expandedNames (h : Named attributes) (space : Namespace) :
    ((attributesIn space attributes).map Attribute.expandedName).Nodup := by
  cases space with
  | html =>
      rw [attributesIn, List.map_map]
      have hdistinct := List.pairwise_map.1 h.distinct
      exact List.pairwise_map.2 (hdistinct.imp fun hne heq => hne (Prod.mk.inj heq).2)
  | svg => exact nodup_respelled graphicsAttributes h
  | mathml => exact nodup_respelled ["definitionURL"] h

end Foreign

end Names

section Order

variable {tag : TagToken} {n : Name} {t : Tag}

/-- In the namespace of HTML the names are those of the start tag. -/
theorem StemsFrom.names_perm (h : StemsFrom tag n t) (hspace : n.space = .html) :
    (t.attributes.map (·.name)).Perm (tag.attributes.map Prod.fst) := by
  rcases h.attributes with ⟨sorted, hperm, _, hattributes⟩
  have hnames := hperm.map Attribute.name
  rw [hspace, Foreign.attributesIn, List.map_map] at hnames
  rw [hattributes, List.map_map]
  exact hnames

/-- They stand in their order. -/
theorem StemsFrom.names_sorted (h : StemsFrom tag n t) (hspace : n.space = .html) :
    (t.attributes.map (·.name)).Pairwise (Attribute.inOrder · ·) := by
  rcases h.attributes with ⟨sorted, hperm, hsorted, hattributes⟩
  rw [hspace, Foreign.attributesIn] at hperm
  rw [hattributes, List.map_map]
  -- None of the attributes has a prefix, so the qualified name is the name.
  refine List.pairwise_map.2 (hsorted.imp_of_mem fun {a b} ha hb hab => ?_)
  rcases List.mem_map.1 (hperm.mem_iff.1 ha) with ⟨a, _, rfl⟩
  rcases List.mem_map.1 (hperm.mem_iff.1 hb) with ⟨b, _, rfl⟩
  rwa [Attribute.precedes_plain] at hab

/-- In the namespace of HTML the names themselves differ. -/
theorem StemsFrom.nodup_names (h : StemsFrom tag n t) (hspace : n.space = .html) :
    (t.attributes.map (·.name)).Nodup := by
  have hdistinct := h.distinct
  rw [hspace, Foreign.attributesIn, List.map_map] at hdistinct
  refine (h.names_perm hspace).nodup_iff.2 (List.pairwise_map.2 ?_)
  exact (List.pairwise_map.1 hdistinct).imp fun hne heq => hne (congrArg (Prod.mk "") heq)

/-- There is one order of names only, so it is that of the start tag or it is not. -/
theorem StemsFrom.names_eq_iff (h : StemsFrom tag n t) (hspace : n.space = .html) :
    t.attributes.map (·.name) = tag.attributes.map Prod.fst ↔
      (tag.attributes.map Prod.fst).Pairwise (Attribute.inOrder · ·) := by
  constructor
  · intro heq
    exact heq ▸ h.names_sorted hspace
  · intro hsorted
    exact (h.names_perm hspace).eq_of_pairwise (fun _ _ _ _ => Attribute.eq_of_inOrder)
      (h.names_sorted hspace) hsorted

end Order

section Trees

namespace Item

mutual

/-- The finished tags of an item, each with the number of its element. Nothing is left of
    what is inside a template. -/
def finishedTags : Item → List (Nat × Tag)
  | element id name attributes children =>
    (id, { name := name.localName, attributes := finishAttributes attributes }) ::
      (if name.isHtml "template" then [] else finishedTagsAll children)
  | text _ => []
  | comment _ => []

/-- The finished tags of a list of items. -/
def finishedTagsAll : List Item → List (Nat × Tag)
  | [] => []
  | i :: is => finishedTags i ++ finishedTagsAll is

end

mutual

theorem tags_toNode (i : Item) : (toNode i).tags = (finishedTags i).map Prod.snd := by
  match i with
  | element id name attributes children =>
      rw [toNode, Node.tags, finishedTags, List.map_cons]
      split
      · rw [Node.tagsAll, List.map_nil]
      · rw [tagsAll_toNodes children]
  | text content => rw [toNode, Node.tags, finishedTags, List.map_nil]
  | comment content => rw [toNode, Node.tags, finishedTags, List.map_nil]

theorem tagsAll_toNodes (is : List Item) :
    Node.tagsAll (toNodes is) = (finishedTagsAll is).map Prod.snd := by
  match is with
  | [] => rw [toNodes, Node.tagsAll, finishedTagsAll, List.map_nil]
  | i :: is =>
      rw [toNodes, Node.tagsAll, finishedTagsAll, List.map_append, tags_toNode i,
        tagsAll_toNodes is]

end

variable {k : Nat}

mutual

theorem count_finishedTags_le (i : Item) :
    ((finishedTags i).map Prod.fst).count k ≤ times k i := by
  match i with
  | element id name attributes children =>
      have hbelow := count_finishedTagsAll_le children
      rw [finishedTags, List.map_cons, List.count_cons, times]
      simp only [beq_iff_eq]
      -- An element counts as itself; what is inside a template is not counted any more.
      split
      · rw [List.map_nil, List.count_nil]
        omega
      · omega
  | text content => rw [finishedTags, List.map_nil, List.count_nil, times]
  | comment content => rw [finishedTags, List.map_nil, List.count_nil, times]

theorem count_finishedTagsAll_le (is : List Item) :
    ((finishedTagsAll is).map Prod.fst).count k ≤ timesAll k is := by
  match is with
  | [] => rw [finishedTagsAll, List.map_nil, List.count_nil, timesAll]
  | i :: is =>
      have hfirst := count_finishedTags_le i
      have hrest := count_finishedTagsAll_le is
      rw [finishedTagsAll, List.map_append, List.count_append, timesAll]
      omega

end

variable {p : Nat → Name → List Attribute → Prop} {e : Nat × Tag}

mutual

/-- The elements of a finished tree are those that grew. -/
theorem exists_of_mem_finishedTags (i : Item) (h : every p i) (he : e ∈ finishedTags i) :
    ∃ n attributes, p e.1 n attributes ∧ e.2.name = n.localName ∧
      e.2.attributes = finishAttributes attributes := by
  match i with
  | element id n attributes children =>
      rw [every] at h
      rw [finishedTags, List.mem_cons] at he
      rcases he with rfl | he
      · exact ⟨n, attributes, h.1, rfl, rfl⟩
      split at he
      · exact absurd he List.not_mem_nil
      · exact exists_of_mem_finishedTagsAll children h.2 he
  | text content =>
      rw [finishedTags] at he
      exact absurd he List.not_mem_nil
  | comment content =>
      rw [finishedTags] at he
      exact absurd he List.not_mem_nil

theorem exists_of_mem_finishedTagsAll (is : List Item) (h : everyAll p is)
    (he : e ∈ finishedTagsAll is) :
    ∃ n attributes, p e.1 n attributes ∧ e.2.name = n.localName ∧
      e.2.attributes = finishAttributes attributes := by
  match is with
  | [] =>
      rw [finishedTagsAll] at he
      exact absurd he List.not_mem_nil
  | i :: is =>
      rw [everyAll] at h
      rw [finishedTagsAll, List.mem_append] at he
      rcases he with he | he
      · exact exists_of_mem_finishedTags i h.1 he
      · exact exists_of_mem_finishedTagsAll is h.2 he

end

/-- The name and the attributes of an element. -/
def label? : Item → Option (Name × List Attribute)
  | element _ name attributes _ => some (name, attributes)
  | _ => none

/-- An element at the top has its tag among those of the finished tree. -/
theorem mem_tagsAll_of_label {name : Name} {attributes : List Attribute} {is : List Item}
    (h : some (name, attributes) ∈ is.map label?) :
    ({ name := name.localName, attributes := finishAttributes attributes } : Tag) ∈
      Node.tagsAll (toNodes is) := by
  induction is with
  | nil => simp at h
  | cons i is ih =>
      rw [toNodes, Node.tagsAll]
      -- Its own tag comes first of all that is finished of it.
      rcases List.mem_cons.1 h with hlabel | hrest
      · cases i with
        | element id other attributes' children =>
            rcases Prod.mk.inj (Option.some.inj hlabel) with ⟨rfl, rfl⟩
            rw [toNode, Node.tags]
            exact List.mem_append_left _ List.mem_cons_self
        | text content => simp [label?] at hlabel
        | comment content => simp [label?] at hlabel
      · exact List.mem_append_right _ (ih hrest)

end Item

variable {tags : List TagToken} {n : Name} {attributes : List Attribute} {t : Tag}

/-- A finished element is implied, or its start tag gave it its attributes. -/
theorem Owned.finished {o : Option Nat} (h : Owned tags n attributes o)
    (hname : t.name = n.localName) (hattributes : t.attributes = Item.finishAttributes attributes)
    (hnamed : ∀ tag ∈ tags, Named tag.attributes) : OwnedBy tags t o := by
  cases o with
  | none =>
      rcases h with ⟨himplied, rfl⟩
      refine ⟨hname ▸ himplied, ?_⟩
      rw [hattributes, Item.finishAttributes, List.mergeSort_nil, List.map_nil]
  | some place =>
      rcases h with ⟨tag, hget, hnames, rfl⟩
      rcases Item.finishAttributes_sorted (Foreign.attributesIn n.space tag.attributes) with
        ⟨sorted, hperm, hsorted, hfinished⟩
      -- The namespace of the element says how its names were respelled.
      have hstems : StemsFrom tag n t :=
        ⟨hnames, hname, ⟨sorted, hperm, hsorted, hattributes.trans hfinished⟩,
          Foreign.nodup_expandedNames (hnamed tag (List.mem_of_getElem? hget)) _⟩
      exact ⟨tag, n, hget, hstems, fun hspace => ⟨hstems.nodup_names hspace,
        hstems.names_eq_iff hspace⟩⟩

/-- The element of a formatting element's tag has its name. -/
theorem OwnedBy.mem_formattingNames {place : Nat} {tag : TagToken}
    (h : OwnedBy tags t (some place)) (hget : tags[place]? = some tag)
    (htag : tag.name ∈ formattingNames) : t.name ∈ formattingNames := by
  rcases h with ⟨tag', n, hget', hstems, _⟩
  rcases Option.some.inj (hget.symm.trans hget') with rfl
  rw [hstems.name]
  rcases hstems.names with hsame | ⟨_, hgraphics⟩ | ⟨_, himage⟩
  · exact hsame ▸ htag
  · -- None of these names is respelled.
    have hplain : ∀ name ∈ formattingNames, Foreign.graphicsName name = name := by
      decide +kernel
    rw [hgraphics, hplain _ htag]
    exact htag
  · rw [himage] at htag
    exact absurd htag (by simp [formattingNames, Builder.phrases])

namespace Builder.Traced

variable {owner : Nat → Option Nat} {b : Builder}

/-- The elements of the finished tree stem from their start tags. -/
theorem ownedBy (h : b.Traced tags owner) (hnamed : ∀ tag ∈ tags, Named tag.attributes)
    {e : Nat × Tag} (he : e ∈ Item.finishedTagsAll b.tree.children) :
    OwnedBy tags e.2 (owner e.1) := by
  rcases Item.exists_of_mem_finishedTagsAll _ (Item.everyAll_children h.tree) he with
    ⟨n, attributes, ⟨_, hn⟩, hname, hattributes⟩
  exact hn.finished hname hattributes hnamed

/-- Each element of the finished tree has a number of its own. -/
theorem nodup_numbers (h : b.Traced tags owner) :
    ((Item.finishedTagsAll b.tree.children).map Prod.fst).Nodup := by
  refine List.nodup_iff_count_le_one.2 fun k => ?_
  -- Nothing is counted twice, and what is finished is no more than what grew.
  have hfinished := Item.count_finishedTagsAll_le (k := k) b.tree.children
  exact hfinished.trans ((Item.timesAll_children_le b.tree).trans (h.once k))

/-- Elements of one start tag are formatting elements. -/
theorem pairwise_owner (h : b.Traced tags owner) (hnamed : ∀ tag ∈ tags, Named tag.attributes) :
    (Item.finishedTagsAll b.tree.children).Pairwise fun e e' =>
      owner e.1 = owner e'.1 → owner e.1 = none ∨ e.2.name ∈ formattingNames := by
  refine (List.pairwise_map.1 h.nodup_numbers).imp_of_mem fun {e e'} he _ hne hsame => ?_
  have howned := h.ownedBy hnamed he
  cases hplace : owner e.1 with
  | none => exact .inl rfl
  | some place =>
      rw [hplace] at howned
      -- Two elements of one start tag were opened again from the list of formatting elements.
      rcases h.owners.shared e.1 e'.1 place hplace (hsame ▸ hplace) with heq | ⟨tag, hget, htag⟩
      · exact absurd heq hne
      · exact .inr (howned.mem_formattingNames hget htag)

end Builder.Traced

end Trees

end Html

open Html

/-- The start tags of a text stand in it one behind the other, and all elements of what is
    read as HTML have the attributes of their own start tags, in the order of the qualified
    names, but for the few elements that no start tag asked for. Only formatting elements,
    which may be opened again, can have one start tag together. -/
theorem parse_attributes (source : String) :
    let text := normalizeLines (Text.dropMark source.toList)
    let tags := startTags (tokensFrom {} text)
    StandInOrder tags text ∧
      ∃ nodes owners, Document.parse .permissive source = .ok ⟨.permissive, nodes⟩ ∧
        List.Forall₂ (OwnedBy tags) (Node.tagsAll nodes) owners ∧
        ((Node.tagsAll nodes).zip owners).Pairwise fun e e' =>
          e.2 = e'.2 → e.2 = none ∨ e.1.name ∈ formattingNames := by
  intro text tags
  -- The tokens are cut one behind the other, so their tags stand in that order.
  have hstand : StandInOrder tags text := standInOrder_startTags {} text
  rcases stems_start.grow text with ⟨owner, htraced⟩
  -- Each element of the tree is an item that grew, finished.
  have htags : Node.tagsAll (read source.toList) =
      (Item.finishedTagsAll (grow {} text).tree.children).map Prod.snd :=
    Item.tagsAll_toNodes _
  refine ⟨hstand, read source.toList,
    (Item.finishedTagsAll (grow {} text).tree.children).map fun e => owner e.1, rfl, ?_, ?_⟩
  · rw [htags, List.forall₂_map_left_iff, List.forall₂_map_right_iff, List.forall₂_same]
    exact fun e he => htraced.ownedBy hstand.named he
  · rw [htags, List.zip_map', List.pairwise_map]
    exact htraced.pairwise_owner hstand.named

/-- Attributes do not stand as they were written, and without the part before the colon two
    of them can have one name. -/
theorem parse_attributes_disordered :
    (∃ nodes, Document.parse .permissive "<p id=\"1\" class=\"2\"></p>" =
        .ok ⟨.permissive, nodes⟩ ∧
      ∃ t ∈ Node.tagsAll nodes, t.name = "p" ∧
        t.attributes = [{ name := "class", value := "2" }, { name := "id", value := "1" }]) ∧
    ∃ nodes, Document.parse .permissive "<svg xlink:href=\"1\" href=\"2\"></svg>" =
        .ok ⟨.permissive, nodes⟩ ∧
      ∃ t ∈ Node.tagsAll nodes, t.name = "svg" ∧
        t.attributes = [{ name := "href", value := "2" }, { name := "href", value := "1" }] := by
  constructor
  · let text := normalizeLines (Text.dropMark "<p id=\"1\" class=\"2\"></p>".toList)
    have hgrown : some (.html "p", [.plain ("id", "1"), .plain ("class", "2")]) ∈
        (grow {} text).tree.children.map Item.label? := by
      decide +kernel
    refine ⟨_, rfl, _, Item.mem_tagsAll_of_label hgrown, rfl, ?_⟩
    rw [Item.finishAttributes_pair]
    decide
  · let text := normalizeLines
      (Text.dropMark "<svg xlink:href=\"1\" href=\"2\"></svg>".toList)
    have hgrown : some (⟨.svg, "svg"⟩, [Foreign.qualify ("xlink:href", "1"),
        .plain ("href", "2")]) ∈ (grow {} text).tree.children.map Item.label? := by
      decide +kernel
    refine ⟨_, rfl, _, Item.mem_tagsAll_of_label hgrown, rfl, ?_⟩
    rw [Item.finishAttributes_pair]
    decide

end SoleRoot

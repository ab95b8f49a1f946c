import SoleRoot.Proofs.Faithful.Rereading
import Mathlib.Data.List.Nodup

/-!
# Decoding What Was Encoded

The documents that the faithful dialect reads from their own text.

A document need not have been read from anywhere; it may have been put together
part by part. `Document.Valid` says what its parts have to satisfy. Names have
characters that stand for nothing else in a tag, values and texts have no
bracket that would end them early and no faulty reference, recorded spelling is
white space and is recorded only where it is not the usual one, and nothing in a
comment or in a CDATA section looks like its end. Besides, no two texts stand
side by side, and a document does not begin with a byte order mark.

`parse_serialize` says that reading the text of such a document gives the
document itself, with every recorded spelling. The proof goes over the tree once
and shows that each of its events is read again. For a start tag the attributes
are turned into clauses of the strict grammar, and since names are solid both
readings of a tag divide these clauses alike.

## Main definitions

* `ValidName`, `ValidAttribute`, `ValidTag`: What is asked of a tag.
* `ValidNode`, `ValidNodes`: What is asked of a tree.
* `Document.Valid`: What is asked of a document.

## Theorems

* `ValidAttribute.exists_clause`: A valid attribute is spelled by a clause.
* `ValidTag.exists_spells`: A valid tag is spelled by a section of clauses.
* `rereads_of_validNodes`: Every event of a valid tree is read again.
* `parse_serialize`: Decoding undoes encoding.
-/

namespace SoleRoot

namespace Faithful

/-- A character that can stand in a name and means nothing else in a tag. -/
def isSolidChar (c : Char) : Bool :=
  !Text.isBlank c && c ∉ ['<', '>', '/', '=', '"', '\'']

/-- What is asked of the name of an element or of an attribute. -/
structure ValidName (name : String) : Prop where
  ne_empty : name ≠ ""
  solid : ∀ c ∈ name.toList, isSolidChar c = true

/-- What is asked of an attribute. -/
structure ValidAttribute (a : Attribute) : Prop where
  name : ValidName a.name
  no_angle : '<' ∉ a.value.toList
  quote_free : a.quote.toChar ∉ a.value.toList
  references : check a.value.toList = .ok ()
  leading_space : ∀ s ∈ a.leading, ∀ c ∈ s.toList, Text.isXmlSpace c = true
  leading_unusual : a.leading ≠ some " "
  separator_form : ∀ s ∈ a.separator, ∃ before after, s.toList = before ++ '=' :: after ∧
    (∀ c ∈ before, Text.isXmlSpace c = true) ∧ ∀ c ∈ after, Text.isXmlSpace c = true
  separator_unusual : a.separator ≠ some "="

/-- What is asked of the white space before the end of a tag. -/
def ValidSpace (space : Option String) : Prop :=
  ∀ s ∈ space, s ≠ "" ∧ ∀ c ∈ s.toList, Text.isXmlSpace c = true

/-- What is asked of a tag. -/
structure ValidTag (tag : Tag) : Prop where
  name : ValidName tag.name
  first : tag.name.toList.head? ≠ some '!' ∧ tag.name.toList.head? ≠ some '?'
  attributes : ∀ a ∈ tag.attributes, ValidAttribute a
  names_nodup : (tag.attributes.map Attribute.name).Nodup
  /-- The name of the element ends where the first attribute begins. -/
  first_leading : ∀ a ∈ tag.attributes.head?, a.leading ≠ some ""
  trailing : ValidSpace tag.trailing
  endTrailing : ValidSpace tag.endTrailing

mutual

/-- What is asked of a node. -/
def ValidNode : Node → Prop
  | .element tag children =>
    ValidTag tag ∧ (tag.selfClosing = true → children = [] ∧ tag.endTrailing = none) ∧
      ValidNodes children
  | .text content => content ≠ "" ∧ '<' ∉ content.toList ∧ check content.toList = .ok ()
  | .comment content => ¬ ['-', '-', '>'] <:+: content.toList
  | .cdata content => ¬ [']', ']', '>'] <:+: content.toList

/-- What is asked of some nodes. No two texts stand side by side. -/
def ValidNodes : List Node → Prop
  | [] => True
  | n :: ns =>
    ValidNode n ∧ (isTextNode n = true → ∀ m ∈ ns.head?, isTextNode m = false) ∧ ValidNodes ns

end

/-- A solid character is not white space of any kind. -/
theorem not_isBlank_of_isSolidChar {c : Char} (h : isSolidChar c = true) :
    Text.isBlank c = false := by
  simp only [isSolidChar, Bool.and_eq_true, Bool.not_eq_true'] at h
  exact h.1

theorem not_isXmlSpace_of_isSolidChar {c : Char} (h : isSolidChar c = true) :
    Text.isXmlSpace c = false := by
  cases hc : Text.isXmlSpace c with
  | false => rfl
  | true =>
      have hblank := not_isBlank_of_isSolidChar h
      rw [Text.isBlank_of_isXmlSpace hc] at hblank
      exact hblank

/-- A solid character neither ends a tag, a key or a name, nor opens a quote. -/
theorem ne_of_isSolidChar {c : Char} (h : isSolidChar c = true) :
    c ≠ '>' ∧ c ≠ '/' ∧ c ≠ '=' ∧ Quote.ofChar? c = none := by
  simp only [isSolidChar, Bool.and_eq_true, decide_eq_true_eq, List.mem_cons, not_or] at h
  rcases h with ⟨_, _, hangle, hslash, hequals, hdouble, hsingle, _⟩
  exact ⟨hangle, hslash, hequals, by rw [Quote.ofChar?, if_neg hdouble, if_neg hsingle]⟩

/-- A solid character leaves open what is open. -/
theorem quiet_of_isSolidChar {c : Char} (h : isSolidChar c = true) :
    c ≠ '>' ∧ Quote.ofChar? c = none :=
  ⟨(ne_of_isSolidChar h).1, (ne_of_isSolidChar h).2.2.2⟩

/-- A solid character may stand in a key. -/
theorem isKeyChar_of_isSolidChar {c : Char} (h : isSolidChar c = true) : isKeyChar c = true := by
  rw [isKeyChar, not_isXmlSpace_of_isSolidChar h, decide_eq_true (ne_of_isSolidChar h).2.2.1,
    Bool.not_false, Bool.and_true]

/-- The name of an element or an attribute is checked character by character. -/
theorem validName_of_all {name : String} (hne : name ≠ "")
    (h : name.toList.all isSolidChar = true) : ValidName name :=
  ⟨hne, List.all_eq_true.1 h⟩

theorem ValidName.toList_ne_nil {name : String} (h : ValidName name) : name.toList ≠ [] :=
  fun hnil => h.ne_empty (String.toList_eq_nil_iff.1 hnil)

/-- A spelling that is recorded only if it is not the usual one is recorded
    again. -/
theorem unusual?_spelling (usual : List Char) {record : Option String}
    (h : record ≠ some (String.ofList usual)) :
    unusual? usual (spelling usual record) = record := by
  cases record with
  | none => rw [spelling_none, unusual?, if_pos rfl]
  | some s =>
      rw [spelling_some, unusual?, if_neg, String.ofList_toList]
      rintro rfl
      exact h (by rw [String.ofList_toList])

/-- A spelling is white space if the record is and the usual one, too. -/
theorem spelling_isXmlSpace {usual : List Char} {record : Option String}
    (husual : ∀ c ∈ usual, Text.isXmlSpace c = true)
    (h : ∀ s ∈ record, ∀ c ∈ s.toList, Text.isXmlSpace c = true) :
    ∀ c ∈ spelling usual record, Text.isXmlSpace c = true := by
  cases record with
  | none => exact husual
  | some s => exact h s rfl

/-- Recorded white space is recorded again. -/
theorem ValidSpace.unusual?_spelling {space : Option String} (h : ValidSpace space) :
    unusual? [] (spelling [] space) = space :=
  Faithful.unusual?_spelling [] fun hempty => (h _ hempty).1 rfl

/-- Recorded white space is white space when it is written. -/
theorem ValidSpace.isXmlSpace {space : Option String} (h : ValidSpace space) :
    ∀ c ∈ spelling [] space, Text.isXmlSpace c = true :=
  spelling_isXmlSpace (by simp) fun s hs => (h s hs).2

/-- A valid attribute is written with an equals sign between white space. -/
theorem ValidAttribute.exists_separator {a : Attribute} (h : ValidAttribute a) :
    ∃ before after, spelling ['='] a.separator = before ++ '=' :: after ∧
      (∀ c ∈ before, Text.isXmlSpace c = true) ∧ ∀ c ∈ after, Text.isXmlSpace c = true := by
  cases hseparator : a.separator with
  | none => exact ⟨[], [], rfl, by simp, by simp⟩
  | some s => exact h.separator_form s hseparator

/-- A valid attribute is spelled by a clause. -/
theorem ValidAttribute.exists_clause {a : Attribute} (h : ValidAttribute a) :
    ∃ c : Clause, c.toAttribute = a ∧ c.Plain ∧ c.lead = spelling [' '] a.leading ∧
      c.key = a.name.toList ∧ c.value = a.value.toList ∧ openQuote? none c.text = some none := by
  rcases h.exists_separator with ⟨before, after, hseparator, hbefore, hafter⟩
  rcases List.exists_cons_of_ne_nil h.name.toList_ne_nil with ⟨first, others, hname⟩
  have hsolid : ∀ c ∈ first :: others, isSolidChar c = true := by
    rw [← hname]
    exact h.name.solid
  have hfirst : isSolidChar first = true := hsolid first List.mem_cons_self
  have hlead : ∀ c ∈ spelling [' '] a.leading, Text.isXmlSpace c = true :=
    spelling_isXmlSpace (by simp [Text.isXmlSpace]) h.leading_space
  -- The clause has the parts of the attribute, with the usual ones written out.
  refine ⟨
    { lead := spelling [' '] a.leading
      first := first
      others := others
      before := before
      after := after
      quote := a.quote
      value := a.value.toList
      lead_space := hlead
      first_solid := not_isXmlSpace_of_isSolidChar hfirst
      others_key := fun c hc => isKeyChar_of_isSolidChar (hsolid c (List.mem_cons_of_mem _ hc))
      before_space := hbefore
      after_space := hafter
      quote_free := h.quote_free }, ?_, ?_, rfl, hname.symm, rfl, ?_⟩
  · -- A record is written out and found unusual again.
    have hkey : String.ofList (first :: others) = a.name := by rw [← hname, String.ofList_toList]
    have hleading := unusual?_spelling [' '] h.leading_unusual
    have hseparated := unusual?_spelling ['='] h.separator_unusual
    simp only [Clause.toAttribute, Clause.key, Clause.separator, hkey, String.ofList_toList,
      hleading, ← hseparator, hseparated]
  · exact ⟨(ne_of_isSolidChar hfirst).2.2.1, fun c hc => not_isBlank_of_isSolidChar (hsolid c hc)⟩
  · -- Only the quotes around the value open anything, and they close it again.
    have hquiet : openQuote? none (spelling [' '] a.leading ++ (first :: others) ++
        (before ++ '=' :: after)) = some none := by
      refine openQuote?_quiet (List.forall_mem_append.2 ⟨List.forall_mem_append.2 ⟨?_, ?_⟩,
        List.forall_mem_append.2 ⟨?_, List.forall_mem_cons.2 ⟨by decide, ?_⟩⟩⟩)
      · exact fun c hc => quiet_of_isXmlSpace (hlead c hc)
      · exact fun c hc => quiet_of_isSolidChar (hsolid c hc)
      · exact fun c hc => quiet_of_isXmlSpace (hbefore c hc)
      · exact fun c hc => quiet_of_isXmlSpace (hafter c hc)
    have hquoted := openQuote?_quoted h.quote_free
    simp only [Clause.text, Clause.key, Clause.separator]
    rw [List.append_assoc _ (a.quote.toChar :: a.value.toList), openQuote?_append, hquiet]
    exact hquoted

/-- Valid attributes are spelled by clauses, one for one. -/
theorem exists_clauses {list : List Attribute} (h : ∀ a ∈ list, ValidAttribute a) :
    ∃ clauses : List Clause, clauses.map Clause.toAttribute = list ∧
      (∀ c ∈ clauses, c.Plain ∧ '<' ∉ c.value ∧ check c.value = .ok ()) ∧
      clauses.map Clause.key = list.map (·.name.toList) ∧
      clauses.map Clause.lead = list.map (spelling [' '] ·.leading) ∧
      openQuote? none (clauses.flatMap Clause.text) = some none := by
  induction list with
  | nil => exact ⟨[], rfl, by simp, rfl, rfl, rfl⟩
  | cons a list ih =>
      rcases List.forall_mem_cons.1 h with ⟨ha, hlist⟩
      rcases ha.exists_clause with ⟨c, hattribute, hplain, hlead, hkey, hvalue, hopen⟩
      rcases ih hlist with ⟨clauses, hattributes, hclauses, hkeys, hleads, hopens⟩
      refine ⟨c :: clauses, ?_, ?_, ?_, ?_, ?_⟩
      · rw [List.map_cons, hattribute, hattributes]
      · exact List.forall_mem_cons.2
          ⟨⟨hplain, hvalue ▸ ha.no_angle, hvalue ▸ ha.references⟩, hclauses⟩
      · rw [List.map_cons, hkey, hkeys, List.map_cons]
      · rw [List.map_cons, hlead, hleads, List.map_cons]
      · -- No quote is open behind an attribute, so the others begin as it did.
        rw [List.flatMap_cons, openQuote?_append, hopen]
        exact hopens

/-- A section begins with white space if its first clause does. -/
theorem Clauses.head_text {s : Clauses} (h : ∀ c ∈ s.list.head?, c.lead ≠ []) :
    ∀ c ∈ s.text.head?, Text.isXmlSpace c = true := by
  rw [text]
  cases hlist : s.list with
  | nil => exact fun c hc => s.trail_space c (List.mem_of_mem_head? hc)
  | cons clause list =>
      rcases List.exists_cons_of_ne_nil (h clause (by rw [hlist]; rfl)) with ⟨d, ds, hlead⟩
      have hd : d ∈ clause.lead := by rw [hlead]; exact List.mem_cons_self
      rw [List.flatMap_cons, Clause.text, hlead]
      exact Text.forall_mem_head?_cons.2 (clause.lead_space d hd)

namespace ValidTag

variable {tag : Tag}

/-- A valid tag is spelled by a section of clauses. -/
theorem exists_spells (h : ValidTag tag) :
    ∃ s : Clauses, Spells s tag ∧ openQuote? none (tagContent tag) = some none := by
  rcases exists_clauses h.attributes with ⟨clauses, hattributes, hclauses, hkeys, hleads, hopen⟩
  let s : Clauses := ⟨clauses, spelling [] tag.trailing, h.trailing.isXmlSpace⟩
  -- The keys are the names of the attributes, and no name stands twice.
  have hnodup : s.keys.Nodup := by
    have hnames : clauses.map Clause.key =
        (tag.attributes.map Attribute.name).map String.toList := by
      rw [hkeys, List.map_map]
      rfl
    change (clauses.map Clause.key).Nodup
    rw [hnames]
    exact List.Nodup.map (fun _ _ hlist => String.toList_inj.1 hlist) h.names_nodup
  -- Only an attribute behind another may touch what stands before it.
  have hhead : ∀ c ∈ s.list.head?, c.lead ≠ [] := by
    intro c hc hnil
    have hfirst : (tag.attributes.map (spelling [' '] ·.leading)).head? = some [] := by
      rw [← hleads, List.head?_map, Option.mem_def.1 hc, Option.map_some, hnil]
    rw [List.head?_map] at hfirst
    rcases Option.map_eq_some_iff.1 hfirst with ⟨a, ha, hleading⟩
    cases hrecord : a.leading with
    | none => simp [hrecord] at hleading
    | some text =>
        rw [hrecord, spelling_some] at hleading
        exact h.first_leading a ha (by rw [hrecord, String.toList_eq_nil_iff.1 hleading])
  have hspells : Spells s tag :=
    { attributes := hattributes.symm
      trailing := h.trailing.unusual?_spelling.symm
      plain := fun c hc => (hclauses c hc).1
      valid := ⟨hnodup, fun c hc => (hclauses c hc).2.1, fun c hc => (hclauses c hc).2.2⟩
      name_solid := fun c hc => not_isXmlSpace_of_isSolidChar (h.name.solid c hc)
      head_space := Clauses.head_text hhead }
  refine ⟨s, hspells, ?_⟩
  have hname : openQuote? none tag.name.toList = some none :=
    openQuote?_quiet fun c hc => quiet_of_isSolidChar (h.name.solid c hc)
  have htrail : openQuote? none (spelling [] tag.trailing) = some none := openQuote?_quiet
    fun c hc => quiet_of_isXmlSpace (h.trailing.isXmlSpace c hc)
  rw [hspells.tagContent_eq, Clauses.text, openQuote?_append, hname, Option.bind_some,
    openQuote?_append, hopen]
  exact htrail

/-- A valid tag is written so that it is read again. -/
theorem readable (h : ValidTag tag) : Readable tag := by
  rcases h.exists_spells with ⟨s, hspells, hopen⟩
  refine ⟨⟨s, hspells⟩, whole_tagToken_iff.2 ⟨?_, hopen, fun _ => ?_⟩⟩
  · rcases List.exists_cons_of_ne_nil h.name.toList_ne_nil with ⟨first, others, hname⟩
    have hfirst := h.first
    have hsolid := h.name.solid first (by rw [hname]; exact List.mem_cons_self)
    rw [hname] at hfirst
    rw [tagContent, hname]
    refine Text.forall_mem_head?_cons.2 ⟨?_, ?_, (ne_of_isSolidChar hsolid).2.1⟩
    · exact fun hbang => hfirst.1 (congrArg some hbang)
    · exact fun hmark => hfirst.2 (congrArg some hmark)
  · -- The last character belongs to the section or, without one, to the name.
    rw [hspells.tagContent_eq, List.getLast?_append]
    cases htext : s.text.getLast? with
    | some c =>
        rw [Option.some_or, ← htext]
        exact s.getLast?_text
    | none =>
        rw [Option.none_or]
        exact fun hlast => absurd (h.name.solid '/' (List.mem_of_getLast? hlast)) (by decide)

theorem rereads_stop (h : ValidTag tag) : (Event.stop tag.name tag.endTrailing).Rereads := by
  have hsolid := h.name.solid
  -- A name and white space open no quote.
  have hopen : openQuote? none (tag.name.toList ++ spelling [] tag.endTrailing) = some none :=
    openQuote?_quiet (List.forall_mem_append.2
      ⟨fun c hc => quiet_of_isSolidChar (hsolid c hc),
        fun c hc => quiet_of_isXmlSpace (h.endTrailing.isXmlSpace c hc)⟩)
  have hstop := Faithful.rereads_stop hopen
    (fun c hc => not_isBlank_of_isSolidChar (hsolid c (List.mem_of_getLast? hc)))
    h.endTrailing.isXmlSpace (fun hnil => absurd hnil h.name.toList_ne_nil)
  rw [String.ofList_toList, h.endTrailing.unusual?_spelling] at hstop
  exact hstop

/-- What the end tag records does not belong to the start tag. -/
theorem open_tag (h : ValidTag tag) : ValidTag { tag with endTrailing := none } where
  name := h.name
  first := h.first
  attributes := h.attributes
  names_nodup := h.names_nodup
  first_leading := h.first_leading
  trailing := h.trailing
  endTrailing := fun s hs => absurd hs (by simp)

end ValidTag

mutual

/-- Every event of a valid node is read again. -/
theorem rereads_of_validNode (n : Node) (h : ValidNode n) : ∀ e ∈ flatten n, e.Rereads := by
  match n with
  | .element tag children =>
      rw [ValidNode] at h
      rcases h with ⟨htag, hself, hchildren⟩
      cases hs : tag.selfClosing with
      | true =>
          -- No children and no end tag: the element is its tag.
          rcases hself hs with ⟨rfl, hend⟩
          rw [flatten_single hs]
          rw [← tagEvent_single hs]
          exact List.forall_mem_singleton.2 (htag.readable.rereads hend)
      | false =>
          -- The start leaves out what the end tag records.
          have hopen : Tag.selfClosing { tag with endTrailing := none } = false := hs
          have hevent := tagEvent_start hopen
          have hstart := htag.open_tag.readable.rereads rfl
          rw [hevent] at hstart
          rw [flatten_element (by rw [hs, Bool.false_and])]
          refine List.forall_mem_cons.2 ⟨hstart,
            List.forall_mem_append.2 ⟨rereads_of_validNodes children hchildren, ?_⟩⟩
          exact List.forall_mem_singleton.2 htag.rereads_stop
  | .text content =>
      rw [ValidNode] at h
      rw [flatten]
      exact List.forall_mem_singleton.2 (rereads_text h.1 h.2.1 h.2.2)
  | .comment content =>
      rw [ValidNode] at h
      rw [flatten]
      exact List.forall_mem_singleton.2 (rereads_comment h)
  | .cdata content =>
      rw [ValidNode] at h
      rw [flatten]
      exact List.forall_mem_singleton.2 (rereads_cdata h)

/-- Every event of a valid tree is read again. -/
theorem rereads_of_validNodes (ns : List Node) (h : ValidNodes ns) :
    ∀ e ∈ flattenAll ns, e.Rereads := by
  match ns with
  | [] => simp
  | n :: ns =>
      rw [ValidNodes] at h
      rw [flattenAll_cons]
      exact List.forall_mem_append.2 ⟨rereads_of_validNode n h.1, rereads_of_validNodes ns h.2.2⟩

end

mutual

theorem apart_of_validNode (n : Node) (h : ValidNode n) : apart n := by
  match n with
  | .element tag children =>
      rw [ValidNode] at h
      rw [apart]
      exact apartAll_of_validNodes children h.2.2
  | .text _ | .comment _ | .cdata _ => simp [apart]

/-- No two texts stand side by side in a valid tree. -/
theorem apartAll_of_validNodes (ns : List Node) (h : ValidNodes ns) : apartAll ns := by
  match ns with
  | [] => simp [apartAll]
  | n :: ns =>
      rw [ValidNodes] at h
      rw [apartAll]
      exact ⟨apart_of_validNode n h.1, h.2.1, apartAll_of_validNodes ns h.2.2⟩

end

/-- Only a text can begin with a byte order mark. -/
theorem head?_write_ne {n : Node} (h : isTextNode n = false) (rest : List Char) :
    (write n ++ rest).head? = some '<' := by
  cases n with
  | text content => exact Bool.noConfusion h
  | element tag children =>
      rw [write]
      split
      · simp [startTag]
      · simp [startTag]
  | comment content => rw [write]; rfl
  | cdata content => rw [write]; rfl

end Faithful

open Faithful

/-- What is asked of a document. -/
structure Document.Valid (d : Document) : Prop where
  mode : d.mode = .faithful
  nodes : ValidNodes d.nodes
  unmarked : ∀ content, d.nodes.head? = some (.text content) →
    content.toList.head? ≠ some '\uFEFF'

/-- Decoding undoes encoding. -/
theorem parse_serialize {d : Document} (h : d.Valid) :
    Document.parse .faithful d.serialize = .ok d := by
  -- The text begins with a bracket unless the first node is a text.
  have hmark : (writeAll d.nodes).head? ≠ some '\uFEFF' := by
    cases hnodes : d.nodes with
    | nil => simp [writeAll]
    | cons n ns =>
        rw [writeAll]
        cases hn : isTextNode n with
        | false =>
            rw [head?_write_ne hn]
            decide
        | true =>
            cases n with
            | text content =>
                have hvalid := h.nodes
                rw [hnodes, ValidNodes, ValidNode] at hvalid
                -- A text that is not empty shows its own first character.
                have hne : content.toList ≠ [] := fun hnil =>
                  hvalid.1.1 (String.toList_eq_nil_iff.1 hnil)
                rw [write, List.head?_append_of_ne_nil _ hne]
                exact h.unmarked content (by rw [hnodes]; rfl)
            | _ => exact Bool.noConfusion hn
  have hread := read_writeAll (rereads_of_validNodes d.nodes h.nodes)
    (apartAll_of_validNodes d.nodes h.nodes) hmark
  rw [parse_eq_ok_iff_read, serialize_eq_ofList_writeAll h.mode, String.toList_ofList]
  exact ⟨h.mode, hread⟩

/-- A document with a bracket inside a value, spaced tags and a comment that ends
    with a hyphen. -/
theorem parse_serialize_spaced :
    ∃ d : Document, d.Valid ∧
      d.serialize = "<a x=\"1>\"y = '' ><!--c---><b/>t&amp;</a >" ∧
      Document.parse .faithful d.serialize = .ok d := by
  have hx : ValidAttribute { name := "x", value := "1>" } :=
    ⟨validName_of_all (by decide) (by decide), by decide, by decide, by decide, by simp, by simp,
      by simp, by simp⟩
  have hy : ValidAttribute
      { name := "y", value := "", quote := .single, leading := some "",
        separator := some " = " } := by
    refine ⟨validName_of_all (by decide) (by decide), by decide, by decide, by decide, by simp,
      by simp, ?_, by simp⟩
    rintro s hs
    rw [← Option.some.inj hs]
    exact ⟨[' '], [' '], by decide, by simp [Text.isXmlSpace], by simp [Text.isXmlSpace]⟩
  have hspace : ValidSpace (some " ") := by
    rintro s hs
    rw [← Option.some.inj hs]
    exact ⟨by decide, by simp [Text.isXmlSpace]⟩
  have ha : ValidTag
      { name := "a"
        attributes := [
          { name := "x", value := "1>" },
          { name := "y", value := "", quote := .single, leading := some "",
            separator := some " = " }]
        trailing := some " "
        endTrailing := some " " } :=
    ⟨validName_of_all (by decide) (by decide), by decide,
      List.forall_mem_cons.2 ⟨hx, List.forall_mem_singleton.2 hy⟩, by decide, by simp, hspace,
      hspace⟩
  have hb : ValidTag { name := "b", selfClosing := true } :=
    ⟨validName_of_all (by decide) (by decide), by decide, by simp, by decide, by simp,
      by simp [ValidSpace], by simp [ValidSpace]⟩
  let d : Document := ⟨.faithful, [.element
    { name := "a"
      attributes := [
        { name := "x", value := "1>" },
        { name := "y", value := "", quote := .single, leading := some "",
          separator := some " = " }]
      trailing := some " "
      endTrailing := some " " }
    [.comment "c-", .element { name := "b", selfClosing := true } [], .text "t&amp;"]]⟩
  have hd : d.Valid := by
    refine ⟨rfl, ?_, by simp [d]⟩
    simp only [d, ValidNodes, ValidNode]
    exact ⟨⟨ha, by simp, by decide, by simp [isTextNode], ⟨hb, by simp, trivial⟩,
      by simp [isTextNode], ⟨by decide, by decide, by decide⟩, by simp, trivial⟩, by simp, trivial⟩
  exact ⟨d, hd, by cbv, parse_serialize hd⟩

end SoleRoot

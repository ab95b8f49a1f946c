import SoleRoot.Markup.Document
import SoleRoot.Proofs.Faithful.Rereading
import SoleRoot.Proofs.Html.Escaping
import SoleRoot.Proofs.Html.Reordering

/-!
# Unique Reading

No two trees are written alike, so no content of a tree can look like markup.

This is about the printer alone. A reader of HTML changes many trees when it reads
their text, so what it makes of a text does not say which tree the text was written
for. Here the text itself says it: whatever stands behind a node, the node can be told
from its text. That goes from the inside out. Each part of a tag ends where the first
character comes that cannot belong to it, an escape is read as what was escaped, a
comment ends with the first mark of its end, and a text goes up to the next angle
bracket.

What a node is shows in the first characters of its text, which is `Opening`. With it
the proof for nodes is an induction over two trees at once, in which what follows a
list of nodes is an end tag or nothing, so that the list ends on both sides at once.

Names are written as they are, so there have to be conditions on them; texts and
values may be any strings. Elements that hold nothing, or whose text is no markup, are
left out, because the printer does not write all of them or does not escape it.

## Main definitions

* `LegibleName`, `LegibleTag`: What is asked of a tag.
* `legible`, `legibleAll`: What is asked of a tree.
* `Opening`: What a text begins with.

## Theorems

* `startTag_append_inj`: A tag can be told from what follows its text.
* `write_append_inj`, `writeAll_append_inj`: So can a node and a list of nodes.
* `writeAll_unspelledAll`: What is written does not depend on the spelling.
* `serialize_permissive_inj`: Trees that are written alike are alike but for spelling.
-/

namespace SoleRoot

namespace Html

/-- What is asked of the name of an element or of an attribute. White space is taken in
    the narrowest sense. -/
structure LegibleName (name : String) : Prop where
  ne_empty : name ≠ ""
  solid : ∀ c ∈ name.toList, Text.isXmlSpace c = false ∧ c ∉ ['<', '>', '/', '=', '"']

/-- What is asked of a tag. -/
structure LegibleTag (tag : Tag) : Prop where
  name : LegibleName tag.name
  first : tag.name.toList.head? ≠ some '!'
  not_void : tag.name ∉ voidNames
  not_raw : tag.name ∉ rawNames
  attributes : ∀ a ∈ tag.attributes, LegibleName a.name

mutual

/-- What is asked of a node. -/
def legible : Node → Prop
  | .element tag children => LegibleTag tag ∧ legibleAll children
  | .text content => content ≠ ""
  | .comment content => ¬ ['-', '-', '>'] <:+: content.toList
  | .cdata _ => False

/-- What is asked of some nodes. No two texts stand side by side. -/
def legibleAll : List Node → Prop
  | [] => True
  | n :: ns =>
    legible n ∧ (Faithful.isTextNode n = true → ∀ m ∈ ns.head?, Faithful.isTextNode m = false) ∧
      legibleAll ns

end

section Tags

variable {x y : List Char}

/-- Whether the name of an element goes on with a character. -/
def inTagName (c : Char) : Bool :=
  c ≠ ' ' && c ≠ '>'

theorem LegibleName.ne_of_mem {name : String} (h : LegibleName name) {c d : Char}
    (hd : Text.isXmlSpace d = true ∨ d ∈ ['<', '>', '/', '=', '"']) (hc : c ∈ name.toList) :
    c ≠ d := by
  rintro rfl
  rcases hd with hspace | hmark
  · exact absurd hspace (by rw [(h.solid c hc).1]; exact Bool.false_ne_true)
  · exact (h.solid c hc).2 hmark

/-- An attribute can be told from what follows its text. -/
theorem writeAttribute_append_inj {a b : SoleRoot.Attribute} (ha : LegibleName a.name)
    (hb : LegibleName b.name) (h : writeAttribute a ++ x = writeAttribute b ++ y) :
    a.unspelled = b.unspelled ∧ x = y := by
  have hequals {name : String} (hname : LegibleName name) : '=' ∉ name.toList := fun hmem =>
    hname.ne_of_mem (.inr (by decide)) hmem rfl
  have hquote (value : String) : '"' ∉ escapeValue value.toList := by
    intro hmem
    rcases mem_escapeValue hmem with hescape | ⟨_, hne⟩
    · exact absurd hescape (by decide)
    · exact hne rfl
  simp only [writeAttribute, List.cons_append, List.append_assoc, List.nil_append,
    List.cons.injEq, true_and] at h
  -- The name goes up to the first equals sign, and the value up to the first quote behind it.
  rcases Text.append_cons_inj (hequals ha) (hequals hb) h with ⟨hname, h⟩
  rcases Text.append_cons_inj (hquote a.value) (hquote b.value) (List.cons.inj h).2
    with ⟨hvalue, h⟩
  rw [SoleRoot.Attribute.unspelled, SoleRoot.Attribute.unspelled, String.toList_inj.1 hname,
    String.toList_inj.1 (escapeValue_injective hvalue)]
  exact ⟨rfl, h⟩

/-- Attributes end where their tag does. -/
theorem flatMap_writeAttribute_append_inj {as bs : List SoleRoot.Attribute}
    (ha : ∀ a ∈ as, LegibleName a.name) (hb : ∀ b ∈ bs, LegibleName b.name)
    (h : as.flatMap writeAttribute ++ '>' :: x = bs.flatMap writeAttribute ++ '>' :: y) :
    as.map SoleRoot.Attribute.unspelled = bs.map SoleRoot.Attribute.unspelled ∧ x = y := by
  induction as generalizing bs with
  | nil =>
      cases bs with
      | nil => exact ⟨rfl, (List.cons.inj h).2⟩
      | cons b bs => simp [writeAttribute] at h
  | cons a as ih =>
      cases bs with
      | nil => simp [writeAttribute] at h
      | cons b bs =>
          rw [List.flatMap_cons, List.flatMap_cons, List.append_assoc, List.append_assoc] at h
          rw [List.forall_mem_cons] at ha hb
          rcases writeAttribute_append_inj ha.1 hb.1 h with ⟨hattribute, h⟩
          rcases ih ha.2 hb.2 h with ⟨hattributes, h⟩
          exact ⟨by rw [List.map_cons, List.map_cons, hattribute, hattributes], h⟩

theorem LegibleName.inTagName_of_mem {name : String} (h : LegibleName name) (c : Char)
    (hc : c ∈ name.toList) : inTagName c = true := by
  have hspace := h.ne_of_mem (d := ' ') (.inl (by decide)) hc
  have hmark := h.ne_of_mem (d := '>') (.inr (by decide)) hc
  simp [inTagName, hspace, hmark]

/-- Behind the name of an element there is a space or the end of the tag. -/
theorem not_inTagName_head (attributes : List SoleRoot.Attribute) (rest : List Char) (c : Char)
    (hc : c ∈ (attributes.flatMap writeAttribute ++ '>' :: rest).head?) : inTagName c = false := by
  cases attributes with
  | nil =>
      rw [← Option.some.inj hc]
      decide
  | cons a as =>
      rw [← Option.some.inj hc]
      decide

/-- A start tag can be told from what follows it. -/
theorem startTag_append_inj {s t : Tag} (hs : LegibleTag s) (ht : LegibleTag t)
    (h : startTag s ++ '>' :: x = startTag t ++ '>' :: y) : s.unspelled = t.unspelled ∧ x = y := by
  simp only [startTag, List.cons_append, List.append_assoc, List.cons.injEq, true_and] at h
  rcases Text.append_inj_stop hs.name.inTagName_of_mem ht.name.inTagName_of_mem
    (not_inTagName_head s.attributes x) (not_inTagName_head t.attributes y) h with ⟨hname, h⟩
  rcases flatMap_writeAttribute_append_inj hs.attributes ht.attributes h with ⟨hattributes, h⟩
  rw [Tag.unspelled, Tag.unspelled, String.toList_inj.1 hname, hattributes]
  exact ⟨rfl, h⟩

/-- The text of an element that is written in full. -/
theorem write_element {tag : Tag} (h : LegibleTag tag) (children : List Node) (rest : List Char) :
    write false (.element tag children) ++ rest =
      startTag tag ++ '>' :: (writeAll false children ++ (endTag tag ++ rest)) := by
  have hvoid : ¬ voidNames.contains tag.name = true := fun hmem =>
    h.not_void (List.contains_iff_mem.1 hmem)
  have hraw : rawNames.contains tag.name = false := by
    rw [Bool.eq_false_iff]
    exact fun hmem => h.not_raw (List.contains_iff_mem.1 hmem)
  rw [write, if_neg hvoid, hraw]
  simp only [List.append_assoc, List.cons_append]

end Tags

/-- What a text begins with, as far as its first two characters tell. -/
inductive Opening where
  | nothing
  | text
  | comment
  | element
  | ending
  deriving DecidableEq, Repr

namespace Opening

/-- What the first two characters of a text tell. -/
def ofChars : List Char → Opening
  | [] => nothing
  | '<' :: '!' :: _ => comment
  | '<' :: '/' :: _ => ending
  | '<' :: _ => element
  | _ => text

/-- What the text of a node begins with. -/
def ofNode : Node → Opening
  | .element _ _ => element
  | .text _ | .cdata _ => text
  | .comment _ => comment

theorem ofChars_bracket {c : Char} (h : c ≠ '!') (h' : c ≠ '/') (cs : List Char) :
    ofChars ('<' :: c :: cs) = element := by
  unfold ofChars
  split
  all_goals simp_all

theorem ofChars_plain {c : Char} (h : c ≠ '<') (cs : List Char) : ofChars (c :: cs) = text := by
  unfold ofChars
  split
  all_goals simp_all

/-- Where no text begins, there is nothing or an angle bracket. -/
theorem eq_of_mem_head? {cs : List Char} (h : ofChars cs ≠ text) (c : Char) (hc : c ∈ cs.head?) :
    c = '<' := by
  cases cs with
  | nil => simp at hc
  | cons d cs =>
      rw [← Option.some.inj hc]
      by_contra hne
      exact h (ofChars_plain hne cs)

theorem ofChars_startTag {tag : Tag} (h : LegibleTag tag) (rest : List Char) :
    ofChars (startTag tag ++ rest) = element := by
  have hne : tag.name.toList ≠ [] := fun hnil =>
    h.name.ne_empty (String.toList_eq_nil_iff.1 hnil)
  rcases List.exists_cons_of_ne_nil hne with ⟨c, cs, hname⟩
  have hslash : c ≠ '/' :=
    h.name.ne_of_mem (.inr (by decide)) (by rw [hname]; exact List.mem_cons_self ..)
  have hmark : c ≠ '!' := by
    rintro rfl
    exact h.first (by rw [hname]; rfl)
  rw [startTag, hname]
  exact ofChars_bracket hmark hslash _

/-- No escape begins with an angle bracket. -/
theorem ofChars_escapeText {content : String} (h : content ≠ "") (rest : List Char) :
    ofChars (escapeText content.toList ++ rest) = text := by
  have hne : content.toList ≠ [] := fun hnil => h (String.toList_eq_nil_iff.1 hnil)
  rcases List.exists_cons_of_ne_nil hne with ⟨c, cs, hcontent⟩
  rw [hcontent, escapeText, List.flatMap_cons]
  rcases escapeTextChar_cases c with ⟨d, ds, hescape, _⟩ | ⟨_, hless, _, hescape⟩
  · rw [hescape]
    exact ofChars_plain (by decide) _
  · rw [hescape]
    exact ofChars_plain hless _

/-- What a node is shows in the first characters of its text. -/
theorem ofChars_write {n : Node} (h : legible n) (rest : List Char) :
    ofChars (write false n ++ rest) = ofNode n := by
  cases n with
  | element tag children =>
      rw [legible] at h
      rw [write_element h.1, ofChars_startTag h.1, ofNode]
  | text content =>
      rw [legible] at h
      rw [write, if_neg Bool.false_ne_true, ofChars_escapeText h, ofNode]
  | comment content =>
      rw [write]
      rfl
  | cdata content =>
      rw [legible] at h
      exact h.elim

/-- Whether a text may follow a complete list of nodes: the end tag of the element around
    them, or nothing. -/
def Ends (cs : List Char) : Prop :=
  ofChars cs = nothing ∨ ofChars cs = ending

theorem not_ends_write {n : Node} (h : legible n) (rest : List Char) :
    ¬ Ends (write false n ++ rest) := by
  rw [Ends, ofChars_write h]
  cases n with
  | element tag children => simp [ofNode]
  | text content => simp [ofNode]
  | comment content => simp [ofNode]
  | cdata content => simp [ofNode]

theorem ofNode_ne_text {n : Node} (h : legible n) (htext : Faithful.isTextNode n = false) :
    ofNode n ≠ text := by
  cases n with
  | text content => exact Bool.noConfusion htext
  | cdata content =>
      rw [legible] at h
      exact h.elim
  | element tag children => simp [ofNode]
  | comment content => simp [ofNode]

/-- Behind a text there is no other one. -/
theorem ofChars_behind_ne_text {n : Node} {ns : List Node} {rest : List Char}
    (h : legibleAll (n :: ns)) (hends : Ends rest) (htext : Faithful.isTextNode n = true) :
    ofChars (writeAll false ns ++ rest) ≠ text := by
  rw [legibleAll] at h
  rcases h with ⟨_, hapart, hns⟩
  cases ns with
  | nil =>
      rw [writeAll, List.nil_append]
      rcases hends with hnothing | hend
      · rw [hnothing]
        decide
      · rw [hend]
        decide
  | cons m ms =>
      rw [legibleAll] at hns
      rw [writeAll, List.append_assoc, ofChars_write hns.1]
      exact ofNode_ne_text hns.1 (hapart htext m rfl)

end Opening

open Opening

section Trees

/-- A text goes up to the next angle bracket. -/
theorem escapeText_append_inj {cs ds x y : List Char} (hx : ofChars x ≠ .text)
    (hy : ofChars y ≠ .text) (h : escapeText cs ++ x = escapeText ds ++ y) : cs = ds ∧ x = y := by
  have hless (cs : List Char) : ∀ c ∈ escapeText cs, decide (c ≠ '<') = true := by
    intro c hc
    rcases mem_escapeText hc with hescape | ⟨_, hne⟩
    · refine decide_eq_true ?_
      rintro rfl
      exact absurd hescape (by decide)
    · exact decide_eq_true hne
  have hstop {z : List Char} (hz : ofChars z ≠ .text) :
      ∀ c ∈ z.head?, decide (c ≠ '<') = false := fun c hc =>
    decide_eq_false fun hne => hne (eq_of_mem_head? hz c hc)
  rcases Text.append_inj_stop (hless cs) (hless ds) (hstop hx) (hstop hy) h with ⟨heq, h⟩
  exact ⟨escapeText_injective heq, h⟩

mutual

/-- A node can be told from what follows its text. -/
theorem write_append_inj {n m : Node} {x y : List Char} (hn : legible n) (hm : legible m)
    (hx : Faithful.isTextNode n = true → ofChars x ≠ .text)
    (hy : Faithful.isTextNode m = true → ofChars y ≠ .text)
    (h : write false n ++ x = write false m ++ y) : n.unspelled = m.unspelled ∧ x = y := by
  -- Both texts begin alike, so the nodes are of one kind.
  have hopening := congrArg ofChars h
  rw [ofChars_write hn, ofChars_write hm] at hopening
  match n, m with
  | .element tag children, .element tag' children' =>
      rw [legible] at hn hm
      rw [write_element hn.1, write_element hm.1] at h
      rcases startTag_append_inj hn.1 hm.1 h with ⟨htag, h⟩
      -- What follows the children is an end tag on both sides.
      have hends (t : Tag) (z : List Char) : Ends (endTag t ++ z) := .inr rfl
      rcases writeAll_append_inj hn.2 hm.2 (hends tag x) (hends tag' y) h with ⟨hchildren, h⟩
      have hname : tag.unspelled.name = tag'.unspelled.name := congrArg Tag.name htag
      change tag.name = tag'.name at hname
      rw [endTag, endTag, hname] at h
      exact ⟨by rw [Node.unspelled, Node.unspelled, htag, hchildren], List.append_cancel_left h⟩
  | .text content, .text content' =>
      rw [write, write, if_neg Bool.false_ne_true, if_neg Bool.false_ne_true] at h
      rcases escapeText_append_inj (hx rfl) (hy rfl) h with ⟨hcontent, h⟩
      exact ⟨by rw [String.toList_inj.1 hcontent], h⟩
  | .comment content, .comment content' =>
      rw [legible] at hn hm
      simp only [write, writeComment, List.cons_append, List.nil_append, List.cons.injEq,
        true_and] at h
      -- The content goes up to the first mark that ends a comment.
      rcases Text.append_mark_inj ⟨['-', '-'], '>', rfl, by decide⟩ hn hm h with ⟨hcontent, h⟩
      exact ⟨by rw [String.toList_inj.1 hcontent], h⟩
  | .cdata _, _ =>
      rw [legible] at hn
      exact hn.elim
  | _, .cdata _ =>
      rw [legible] at hm
      exact hm.elim
  | .element _ _, .text _ | .element _ _, .comment _ | .text _, .element _ _
  | .text _, .comment _ | .comment _, .element _ _ | .comment _, .text _ =>
      simp [ofNode] at hopening

/-- A complete list of nodes can be told from what follows its text. -/
theorem writeAll_append_inj {ns ms : List Node} {x y : List Char} (hns : legibleAll ns)
    (hms : legibleAll ms) (hx : Ends x) (hy : Ends y)
    (h : writeAll false ns ++ x = writeAll false ms ++ y) :
    Node.unspelledAll ns = Node.unspelledAll ms ∧ x = y := by
  match ns, ms with
  | [], [] =>
      rw [writeAll] at h
      exact ⟨rfl, h⟩
  | [], m :: ms =>
      rw [legibleAll] at hms
      simp only [writeAll, List.nil_append, List.append_assoc] at h
      exact absurd (h ▸ hx) (not_ends_write hms.1 _)
  | n :: ns, [] =>
      rw [legibleAll] at hns
      simp only [writeAll, List.nil_append, List.append_assoc] at h
      exact absurd (h ▸ hy) (not_ends_write hns.1 _)
  | n :: ns, m :: ms =>
      have hbehind := ofChars_behind_ne_text hns hx
      have hbehind' := ofChars_behind_ne_text hms hy
      rw [legibleAll] at hns hms
      rw [writeAll, writeAll, List.append_assoc, List.append_assoc] at h
      rcases write_append_inj hns.1 hms.1 hbehind hbehind' h with ⟨hn, h⟩
      rcases writeAll_append_inj hns.2.2 hms.2.2 hx hy h with ⟨htail, h⟩
      exact ⟨by rw [Node.unspelledAll, Node.unspelledAll, hn, htail], h⟩

end

mutual

/-- What is written does not depend on the spelling. -/
theorem write_unspelled (raw : Bool) (n : Node) : write raw n.unspelled = write raw n := by
  match n with
  | .element tag children =>
      have htag : startTag tag.unspelled = startTag tag := by
        rw [startTag, Tag.unspelled, List.flatMap_map]
        rfl
      rw [Node.unspelled, write, write, writeAll_unspelledAll, htag]
      rfl
  | .text _ | .comment _ | .cdata _ => rw [Node.unspelled]

theorem writeAll_unspelledAll (raw : Bool) (ns : List Node) :
    writeAll raw (Node.unspelledAll ns) = writeAll raw ns := by
  match ns with
  | [] => rw [Node.unspelledAll]
  | n :: ns =>
      rw [Node.unspelledAll, writeAll, writeAll, write_unspelled, writeAll_unspelledAll]

end

end Trees

end Html

open Html

/-- Trees that are written alike as HTML are alike but for their spelling, which HTML does
    not show. So no text, value or comment can be taken for anything else. -/
theorem serialize_permissive_inj {ns ms : List Node} (hns : legibleAll ns) (hms : legibleAll ms) :
    Document.serialize ⟨.permissive, ns⟩ = Document.serialize ⟨.permissive, ms⟩ ↔
      Node.unspelledAll ns = Node.unspelledAll ms := by
  rw [← String.toList_inj, Document.toList_serialize_permissive,
    Document.toList_serialize_permissive]
  constructor
  · intro h
    refine (writeAll_append_inj (x := []) (y := []) hns hms (.inl rfl) (.inl rfl) ?_).1
    rw [h]
  · intro h
    rw [← writeAll_unspelledAll, h, writeAll_unspelledAll]

/-- A value and a text full of marks are not written as the markup that they look like,
    and the quotes of a value are not written as they were. -/
theorem serialize_permissive_inj_forged :
    let tag (value : String) : Tag := { name := "p", attributes := [{ name := "a", value }] }
    let quoted : Tag :=
      { name := "p", attributes := [{ name := "a", value := "\"><b>&quot;", quote := .single }] }
    let forged : List Node := [.element (tag "\"><b>&quot;") [.text "</p><!--"], .comment "--"]
    Document.serialize ⟨.permissive, forged⟩ =
        Document.serialize ⟨.permissive, [.element quoted [.text "</p><!--"], .comment "--"]⟩ ∧
      Document.serialize ⟨.permissive, forged⟩ ≠ Document.serialize ⟨.permissive,
        [.element (tag "") [.element { name := "b" } [.text "\"\">"]], .comment "--"]⟩ := by
  intro tag quoted forged
  have hname : LegibleName "p" ∧ LegibleName "a" ∧ LegibleName "b" :=
    ⟨⟨by decide, by simp [Text.isXmlSpace]⟩, ⟨by decide, by simp [Text.isXmlSpace]⟩,
      ⟨by decide, by simp [Text.isXmlSpace]⟩⟩
  have hp (attributes : List Attribute) (h : ∀ a ∈ attributes, LegibleName a.name) :
      LegibleTag { name := "p", attributes } :=
    ⟨hname.1, by simp, by simp [voidNames], by simp [rawNames], h⟩
  have htag (value : String) : LegibleTag (tag value) :=
    hp _ (List.forall_mem_singleton.2 hname.2.1)
  have hquoted : LegibleTag quoted := hp _ (List.forall_mem_singleton.2 hname.2.1)
  have hb : LegibleTag { name := "b" } :=
    ⟨hname.2.2, by simp, by simp [voidNames], by simp [rawNames], List.forall_mem_nil _⟩
  have hmark : ¬ ['-', '-', '>'] <:+: ['-', '-'] := by decide
  have hforged : legibleAll forged := by
    simp [forged, legibleAll, legible, htag, Faithful.isTextNode, hmark]
  constructor
  · refine (serialize_permissive_inj hforged ?_).2 rfl
    simp [legibleAll, legible, hquoted, Faithful.isTextNode, hmark]
  · refine mt (serialize_permissive_inj hforged ?_).1 ?_
    · simp [legibleAll, legible, htag, hb, Faithful.isTextNode, hmark]
    · simp [forged, tag, Node.unspelledAll, Node.unspelled, Tag.unspelled,
        SoleRoot.Attribute.unspelled]

end SoleRoot

import SoleRoot.Markup.Document
import SoleRoot.Proofs.Faithful.Rereading
import SoleRoot.Proofs.Html.Reordering
import SoleRoot.Proofs.Html.Rereading

/-!
# Plain Trees Come Back

Reading undoes writing for ordinary trees of HTML.

A plain tree consists of a few kinds of blocks and of phrases without rules of their
own, nested in any way, with texts and comments between them. Nothing is asked of
texts and of the values of attributes but that a reader takes their characters as
they are, so they may be full of what looks like markup. A comment may hold nothing
that could end it.

Blocks end a paragraph, but in a plain tree none is ever open, so each start tag
opens an element in the innermost one. The tree is read as it was written, and what
remains is to see that its items are the nodes again. Two things could differ. Texts
side by side would be joined, so there must be none. And attributes are stored in
the order of their names.

## Main definitions

* `PlainTag`, `plain`, `plainAll`: Ordinary trees.
* `PlainTrees`: Such trees without texts side by side.

## Theorems

* `fitsAll_of_plain`: Plain trees are read as they were written.
* `parse_serialize_plain`: Reading undoes writing for plain trees.
-/

namespace SoleRoot

open Html

/-- The names of the elements of plain trees. -/
def plainNames : List String :=
  ["div", "section", "article", "span"]

/-- Whether a character may stand in the name of a plain attribute. -/
def isPlainChar (c : Char) : Bool :=
  c.isLower || c.isDigit || c == '-'

/-- Whether a text is a name of small letters, digits and hyphens that starts with a
    letter. -/
def isPlainName : List Char → Bool
  | [] => false
  | c :: cs => c.isLower && cs.all isPlainChar

/-- Whether a tag is that of an element of plain trees. -/
structure PlainTag (t : Tag) : Prop where
  name : t.name ∈ plainNames
  attributeNames : ∀ a ∈ t.attributes, isPlainName a.name.toList = true
  values : ∀ a ∈ t.attributes, '\x00' ∉ a.value.toList ∧ '\r' ∉ a.value.toList
  distinct : (t.attributes.map (·.name)).Nodup

mutual

/-- Whether a node is a plain tree, but for texts side by side. -/
def plain : Node → Prop
  | .element tag children => PlainTag tag ∧ plainAll children
  | .text content => content ≠ "" ∧ '\x00' ∉ content.toList ∧ '\r' ∉ content.toList
  | .comment content => ∀ c ∈ ['-', '>', '\x00', '\r'], c ∉ content.toList
  | .cdata _ => False

/-- Whether all nodes of a list are plain trees, but for texts side by side. -/
def plainAll : List Node → Prop
  | [] => True
  | n :: ns => plain n ∧ plainAll ns

end

/-- Whether some nodes are plain trees. -/
structure PlainTrees (ns : List Node) : Prop where
  nodes : plainAll ns
  apart : Faithful.apartAll ns
  /-- A byte order mark at the start would not be read as text. -/
  unmarked : ∀ content, ns.head? = some (.text content) → content.toList.head? ≠ some '\uFEFF'

section Names

/-- A plain character stands for itself in the name of an attribute. -/
theorem isPlainChar_spec {c : Char} (h : isPlainChar c = true) :
    isAttributeNameChar c = true ∧ (replaceNull c).toLower = c := by
  have hlt : c.toNat < 123 := by
    simp only [isPlainChar, Char.isLower, Char.isDigit, Bool.or_eq_true, Bool.and_eq_true,
      decide_eq_true_eq, beq_iff_eq, UInt32.le_iff_toNat_le] at h
    rcases h with (⟨_, h⟩ | ⟨_, h⟩) | rfl
    · exact Nat.lt_succ_of_le h
    · exact Nat.lt_of_le_of_lt h (by decide)
    · decide
  -- There are few such characters, so each of them is looked at.
  have hall : ∀ n < 123, isPlainChar (Char.ofNat n) = true →
      isAttributeNameChar (Char.ofNat n) = true ∧
        (replaceNull (Char.ofNat n)).toLower = Char.ofNat n := by
    decide +kernel
  have hc := hall c.toNat hlt
  rw [Char.ofNat_toNat] at hc
  exact hc h

/-- The name of a plain attribute is read as it is. -/
theorem isPlainName_spec {name : String} (h : isPlainName name.toList = true) :
    isAttributeName name.toList = true ∧ lowered name = name := by
  have hchars : ∀ c ∈ name.toList, isPlainChar c = true := by
    intro c hc
    cases hname : name.toList with
    | nil =>
        rw [hname] at hc
        exact absurd hc List.not_mem_nil
    | cons d ds =>
        rw [hname, isPlainName, Bool.and_eq_true, List.all_eq_true] at h
        rw [hname] at hc
        rcases List.mem_cons.1 hc with rfl | hc
        · rw [isPlainChar, h.1, Bool.true_or, Bool.true_or]
        · exact h.2 c hc
  constructor
  -- The first character of a name has a rule of its own, which a plain character meets as well.
  · cases hname : name.toList with
    | nil => exact absurd h (by simp [hname, isPlainName])
    | cons d ds =>
        rw [hname] at hchars
        rcases List.forall_mem_cons.1 hchars with ⟨hd, hds⟩
        have hfirst := (isPlainChar_spec hd).1
        rw [isAttributeNameChar, Bool.and_eq_true] at hfirst
        rw [isAttributeName, hfirst.1, Bool.true_and, List.all_eq_true]
        exact fun c hc => (isPlainChar_spec (hds c hc)).1
  · have hsame : name.toList.map (fun c => (replaceNull c).toLower) = name.toList :=
      (List.map_congr_left fun c hc => (isPlainChar_spec (hchars c hc)).2).trans
        (List.map_id _)
    rw [lowered, nameOf, hsame, String.ofList_toList]

/-- The elements of plain trees have names that are read as they are, are neither void nor raw, and
neither open a paragraph nor hold a template. -/
theorem plainNames_spec {name : String} (h : name ∈ plainNames) :
    lowered name = name ∧ isTagName name.toList = true ∧ voidNames.contains name = false ∧
      rawNames.contains name = false ∧ name ≠ "p" ∧ name ≠ "template" := by
  revert name
  decide +kernel

/-- No element of plain trees has peculiar rules. -/
theorem plainNames_unruled {name : String} (h : name ∈ plainNames) :
    name ∉ ["svg", "math"] ++ glyphs ∧ name ∉ modal ∧ name ∉ skipping ∧ name ≠ "script" := by
  revert name
  decide

end Names

section Fitting

/-- Whether only elements of HTML are open, no paragraph, and nothing that calls for rules other
    than those of the body. -/
structure Unruled (names : List Name) : Prop where
  nonempty : names ≠ []
  html : ∀ n ∈ names, n.space = .html
  paragraph : ∀ n ∈ names, n.localName ≠ "p"
  mode : modeFor names = .inBody

/-- What no open element is, is in no scope. -/
theorem has_eq_false {s : Scope} {p : Opened → Bool} {os : List Opened}
    (h : ∀ o ∈ os, p o = false) : s.has p os = false := by
  induction os with
  | nil => rfl
  | cons o os ih =>
      rcases List.forall_mem_cons.1 h with ⟨ho, hos⟩
      rw [Scope.has, ho, ih hos, Bool.and_false, Bool.or_false]

variable {names : List Name}

theorem Unruled.inParagraph (h : Unruled names) : inParagraph names = false := by
  refine has_eq_false fun o ho => ?_
  rcases List.mem_map.1 ho with ⟨n, hn, rfl⟩
  simp [Name.isHtml, h.paragraph n hn]

/-- The rules of HTML apply to what stands in an element of HTML. -/
theorem Unruled.readsHtml_innermost (h : Unruled names) : readsHtml (innermost names) = true := by
  cases names with
  | nil => exact absurd rfl h.nonempty
  | cons n names =>
      have hspace := h.html n List.mem_cons_self
      simp [innermost, readsHtml, hspace]

/-- The name of a plain tag is that of the element, because none is the root of foreign content. -/
theorem childName_of_plain {parent : Name} (hreads : readsHtml parent = true) {name : String}
    (hname : name ∈ plainNames) : childName parent name = .html name := by
  have hroot := (plainNames_unruled hname).1
  simp only [List.cons_append, List.nil_append, List.mem_cons, not_or] at hroot
  rw [childName, hreads, if_pos rfl, if_neg hroot.1, if_neg hroot.2.1]

/-- A plain element changes none of this for what stands in it. -/
theorem Unruled.cons (h : Unruled names) {name : String} (hname : name ∈ plainNames) :
    Unruled (.html name :: names) where
  nonempty := List.cons_ne_nil _ _
  html := List.forall_mem_cons.2 ⟨rfl, h.html⟩
  paragraph := List.forall_mem_cons.2 ⟨(plainNames_spec hname).2.2.2.2.1, h.paragraph⟩
  mode := by
    have hmodal : (Name.html name).isIn modal = false := by
      simpa [Name.isIn, Name.html] using (plainNames_unruled hname).2.1
    -- A plain element sets no rules, so those of the elements around it go on.
    rw [modeFor_cons_of_not_modal h.nonempty hmodal, h.mode]

/-- The start tag of an element of plain trees opens it and does nothing else. -/
theorem Unruled.admits (h : Unruled names) {name : String} (hname : name ∈ plainNames) :
    admits names name = true := by
  have hbody : admitsInBody names name = true := by
    rw [admitsInBody, h.inParagraph]
    simp only [plainNames, List.mem_cons, List.not_mem_nil, or_false] at hname
    -- Outside of a paragraph none of the four names ends anything first.
    rcases hname with rfl | rfl | rfl | rfl
    all_goals rfl
  have hglyph : glyphs.contains name = false := by
    have hroot := (plainNames_unruled hname).1
    rw [List.mem_append, not_or] at hroot
    exact Bool.eq_false_iff.2 fun hc => hroot.2 (List.contains_iff_mem.1 hc)
  rw [Html.admits, if_pos h.readsHtml_innermost, (plainNames_spec hname).1, hglyph, h.mode, hbody]
  simp [isFlow]

/-- A plain tag is written so that it is read as it was. -/
theorem PlainTag.writable {t : Tag} (h : PlainTag t) : Writable t where
  name := (plainNames_spec h.name).2.1
  attributes := fun a ha => ⟨(isPlainName_spec (h.attributeNames a ha)).1,
    isSteady_of_not_mem (h.values a ha).1 (h.values a ha).2⟩

/-- Nothing in a plain comment ends it. -/
theorem closeable_of_plain {content : List Char}
    (h : ∀ c ∈ ['-', '>', '\x00', '\r'], c ∉ content) : Closeable content where
  steady := isSteady_of_not_mem (h _ (by decide)) (h _ (by decide))
  mark := fun hmark => h '-' (by decide) (hmark.subset (by decide))
  other := fun hmark => h '-' (by decide) (hmark.subset (by decide))
  bracket := fun hmark => h '>' (by decide) (hmark.subset (by decide))
  hyphen := fun hmark => h '-' (by decide) (hmark.subset (by decide))

/-- A plain tree may stand in front of any other. -/
theorem Unruled.mayPrecede (h : Unruled names) {n : Node} (hn : plain n) (m : Node) :
    mayPrecede names n m = true := by
  -- Only a script keeps what follows it from being read with the same rules.
  have hscript : isScript names n = false := by
    cases n with
    | element tag children =>
        rw [plain] at hn
        rw [isScript, beq_eq_false_iff_ne.2 (plainNames_unruled hn.1.name).2.2.2,
          Bool.false_and]
    | _ => rfl
  rw [Html.mayPrecede, h.mode, hscript]
  rfl

mutual

/-- A plain tree is read as it was written. -/
theorem fits_of_plain {names : List Name} (hnames : Unruled names) (n : Node) (h : plain n) :
    fits false names n = true := by
  match n with
  | .element tag children =>
      rw [plain] at h
      rcases h with ⟨htag, hchildren⟩
      rcases plainNames_spec htag.name with ⟨_, _, hvoid, hraw, _⟩
      rcases plainNames_unruled htag.name with ⟨_, _, hskips, _⟩
      -- What stands in the element is read below it, where nothing has changed.
      have hinside := fitsAll_of_plain (hnames.cons htag.name) children hchildren
      have hskip : skipping.contains tag.name = false :=
        Bool.eq_false_iff.2 fun hc => hskips (List.contains_iff_mem.1 hc)
      rw [fits, decide_eq_true htag.writable, hvoid, hraw, if_neg Bool.false_ne_true,
        hnames.admits htag.name, childName_of_plain hnames.readsHtml_innermost htag.name, hskip,
        hinside]
      simp
  | .text content =>
      rw [plain] at h
      rcases h with ⟨hne, hnull, hreturn⟩
      simp [fits, fitsText, hne, isSteady_of_not_mem hnull hreturn, hnames.mode, takesText, isFlow]
  | .comment content =>
      rw [plain] at h
      rw [fits, decide_eq_true (closeable_of_plain h)]
  | .cdata content =>
      rw [plain] at h
      exact h.elim

/-- Plain trees are read as they were written. -/
theorem fitsAll_of_plain {names : List Name} (hnames : Unruled names) (ns : List Node)
    (h : plainAll ns) : fitsAll false names ns = true := by
  match ns with
  | [] => rw [fitsAll]
  | n :: ns =>
      rw [plainAll] at h
      have hprecede : ns.head?.all (mayPrecede names n) = true := by
        cases ns with
        | nil => rfl
        | cons m ms => exact hnames.mayPrecede h.1 m
      rw [fitsAll, fits_of_plain hnames n h.1, fitsAll_of_plain hnames ns h.2, hprecede]
      rfl

end

end Fitting

section Numbering

/-- The item of a plain node is text if the node is. -/
theorem isText_number (parent : Name) (k : Nat) {n : Node} (h : plain n) :
    (number parent k n).1.isText = Faithful.isTextNode n := by
  cases n with
  | cdata content =>
      rw [plain] at h
      exact h.elim
  | _ =>
      rw [number]
      rfl

/-- Texts that are apart stay apart. -/
theorem isChain_numberAll (parent : Name) (k : Nat) {ns : List Node} (h : plainAll ns)
    (hapart : Faithful.apartAll ns) :
    (numberAll parent k ns).1.IsChain fun i j => i.isText = true → j.isText = false := by
  induction ns generalizing k with
  | nil =>
      rw [numberAll]
      exact List.isChain_nil
  | cons n ns ih =>
      rw [plainAll] at h
      rw [Faithful.apartAll] at hapart
      rcases hapart with ⟨_, hnext, hapart⟩
      rw [numberAll]
      refine List.isChain_cons.2 ⟨?_, ih _ h.2 hapart⟩
      intro j hj hn
      rw [isText_number parent k h.1] at hn
      -- Whether the next item is text is told by the next node.
      cases ns with
      | nil =>
          rw [numberAll] at hj
          exact absurd hj (by simp)
      | cons m ms =>
          rw [numberAll] at hj
          rcases Option.some.inj hj with rfl
          have hm := h.2
          rw [plainAll] at hm
          rw [isText_number parent _ hm.1]
          exact hnext hn m rfl

/-- Plain trees are not joined when they are put side by side. -/
theorem gather_numberAll (parent : Name) (k : Nat) {ns : List Node} (h : plainAll ns)
    (hapart : Faithful.apartAll ns) :
    Item.gather (numberAll parent k ns).1 = (numberAll parent k ns).1 :=
  Item.foldl_attach (isChain_numberAll parent k h hapart)

/-- The token of a plain tag has the attributes of the tag, since no name is repeated or changed by
reading. -/
theorem PlainTag.tokenOf_attributes {t : Tag} (h : PlainTag t) :
    (tokenOf t).attributes = t.attributes.map fun a => (a.name, a.value) := by
  have hlowered : (t.attributes.map fun a => (lowered a.name, a.value)) =
      t.attributes.map fun a => (a.name, a.value) :=
    List.map_congr_left fun a ha => by rw [(isPlainName_spec (h.attributeNames a ha)).2]
  have hdistinct : (([] ++ t.attributes.map fun (a : SoleRoot.Attribute) =>
      (a.name, a.value)).map Prod.fst).Nodup := by
    rw [List.nil_append, List.map_map]
    exact h.distinct
  rw [tokenOf, hlowered, foldl_withAttribute hdistinct, List.nil_append]

/-- The attributes of a plain tag come back in the order of their names. -/
theorem PlainTag.perm {t : Tag} (h : PlainTag t) :
    t.unspelled.attributes.Perm
      (Item.finishAttributes (Foreign.attributesIn .html (tokenOf t).attributes)) := by
  have hperm := Item.finishAttributes_perm (Foreign.attributesIn .html (tokenOf t).attributes)
  have hsame : (Foreign.attributesIn .html (tokenOf t).attributes).map Attribute.finished =
      t.unspelled.attributes := by
    rw [h.tokenOf_attributes, Foreign.attributesIn, List.map_map, List.map_map]
    rfl
  rwa [hsame] at hperm

mutual

/-- The item of a plain tree is the tree again, up to the order of attributes. -/
theorem reordered_number {parent : Name} (hparent : readsHtml parent = true) (k : Nat) (n : Node)
    (h : plain n) (hapart : Faithful.apart n) :
    n.unspelled.Reordered (Item.toNode (number parent k n).1) := by
  match n with
  | .element tag children =>
      rw [plain] at h
      rw [Faithful.apart] at hapart
      rcases h with ⟨htag, hchildren⟩
      rcases plainNames_spec htag.name with ⟨_, _, _, _, _, htemplate⟩
      -- Only the content of a template is kept apart, and no plain element is one.
      have hopen : (Name.html tag.name).isHtml "template" = false := by
        simp [Name.isHtml, Name.html, htemplate]
      have hreads : readsHtml (.html tag.name) = true := rfl
      have hinside := reorderedAll_number hreads (k + 1) children hchildren hapart
      rw [number, childName_of_plain hparent htag.name, Item.toNode, hopen,
        gather_numberAll _ _ hchildren hapart, Node.unspelled]
      exact .element htag.perm hinside
  | .text content =>
      rw [number, Item.toNode, Node.unspelled]
      exact .text content
  | .comment content =>
      rw [number, Item.toNode, Node.unspelled]
      exact .comment content
  | .cdata content =>
      rw [plain] at h
      exact h.elim

/-- The items of plain trees are the trees again, one by one. -/
theorem reorderedAll_number {parent : Name} (hparent : readsHtml parent = true) (k : Nat)
    (ns : List Node) (h : plainAll ns) (hapart : Faithful.apartAll ns) :
    List.Forall₂ Node.Reordered (Node.unspelledAll ns)
      (Item.toNodes (numberAll parent k ns).1) := by
  match ns with
  | [] =>
      rw [numberAll, Item.toNodes, Node.unspelledAll]
      exact .nil
  | n :: ns =>
      rw [plainAll] at h
      rw [Faithful.apartAll] at hapart
      rw [numberAll, Item.toNodes, Node.unspelledAll]
      exact .cons (reordered_number hparent k n h.1 hapart.1)
        (reorderedAll_number hparent _ ns h.2 hapart.2.2)

end

end Numbering

/-- A character that is escaped starts with itself or with an ampersand. -/
theorem head?_escapeTextChar (d : Char) (cs : List Char) :
    (escapeTextChar d ++ cs).head? = some d ∨ (escapeTextChar d ++ cs).head? = some '&' := by
  rcases escapeTextChar_cases d with ⟨c, es, hescape, _⟩ | ⟨_, _, _, hescape⟩
  · rw [hescape]
    exact .inr rfl
  · rw [hescape]
    exact .inl rfl

/-- What is written of plain trees does not start with a byte order mark. -/
theorem PlainTrees.head?_writeAll {ns : List Node} (h : PlainTrees ns) :
    (writeAll false ns).head? ≠ some '\uFEFF' := by
  have hplain := h.nodes
  have hunmarked := h.unmarked
  cases ns with
  | nil => simp [writeAll]
  | cons n ns =>
      rw [plainAll] at hplain
      rw [writeAll]
      cases n with
      | element tag children =>
          rw [List.head?_append, head?_write_element, Option.some_or]
          decide
      | comment content => simp [write, writeComment]
      | text content =>
          have hhead := hunmarked content rfl
          have hne := hplain.1
          rw [plain] at hne
          rw [write, if_neg Bool.false_ne_true]
          cases hcs : content.toList with
          | nil => exact absurd (String.toList_eq_nil_iff.1 hcs) hne.1
          | cons c cs =>
              rw [hcs] at hhead
              rw [escapeText, List.flatMap_cons, List.append_assoc]
              -- The mark itself is never escaped, so only the node could have brought it.
              rcases head?_escapeTextChar c (cs.flatMap escapeTextChar ++ writeAll false ns) with
                hfirst | hfirst
              · rwa [hfirst]
              · rw [hfirst]
                decide
      | cdata content =>
          rw [plain] at hplain
          exact hplain.1.elim

/-- Plain trees come back when what is written of them is read, up to the order of
    the attributes in each element. -/
theorem parse_serialize_plain {ns : List Node} (h : PlainTrees ns) :
    ∃ ms, Document.parse .permissive (Document.serialize ⟨.permissive, ns⟩) =
        .ok ⟨.permissive, ms⟩ ∧
      List.Forall₂ Node.Reordered (Node.unspelledAll ns) ms := by
  -- The list is read in the body of a document in which nothing is open.
  have hunruled : Unruled [.html "html"] := ⟨by decide, by decide, by decide, rfl⟩
  have hread := read_writeAll (fitsAll_of_plain hunruled ns h.nodes) h.head?_writeAll
  rw [gather_numberAll _ _ h.nodes h.apart] at hread
  have hreads : readsHtml (.html "html") = true := rfl
  refine ⟨_, ?_, reorderedAll_number hreads 1 ns h.nodes h.apart⟩
  rw [← hread, ← Document.toList_serialize_permissive]
  rfl

/-- A tree whose texts, values and comment look like markup comes back. -/
theorem parse_serialize_plain_hostile :
    let ns : List Node :=
      [.text "&lt;", .comment "<b", .element
        { name := "div", attributes := [{ name := "id", value := "\"&quot" },
          { name := "class", value := "<p>" }] }
        [.element { name := "span" } [.text "</div>"], .text "\uFEFF&amp"]]
    PlainTrees ns ∧
      ∃ ms, Document.parse .permissive (Document.serialize ⟨.permissive, ns⟩) =
          .ok ⟨.permissive, ms⟩ ∧
        List.Forall₂ Node.Reordered (Node.unspelledAll ns) ms := by
  intro ns
  have hdiv : PlainTag { name := "div", attributes := [{ name := "id", value := "\"&quot" },
      { name := "class", value := "<p>" }] } :=
    ⟨by decide, by decide +kernel, by decide +kernel, by decide⟩
  have hspan : PlainTag { name := "span" } := ⟨by decide, by decide, by decide, by decide⟩
  have hplain : PlainTrees ns := by
    refine ⟨?_, ?_, ?_⟩
    · simp [ns, plainAll, plain, hdiv, hspan]
    · simp [ns, Faithful.apartAll, Faithful.apart, Faithful.isTextNode]
    · simp [ns]
  exact ⟨hplain, parse_serialize_plain hplain⟩

end SoleRoot

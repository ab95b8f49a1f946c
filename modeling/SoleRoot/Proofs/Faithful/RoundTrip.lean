import SoleRoot.Proofs.Faithful.Acceptance

/-!
# Reading and Writing Again

What is written for a text that the faithful dialect has accepted.

Declarations, processing instructions and document types leave nothing in the
tree. Every other token leaves one event, and `Token.respelled` is the token
that this event is written as. The text that is written is that of these tokens,
in their order. So the question whether reading and writing gives the text back,
less what was dropped, is a question about one token at a time, once it is known
that no token is written shorter than it was read: a loss would otherwise be
made up for elsewhere.

Only two kinds of token can be spelled in a way that is not kept. An end tag is
written anew if its name ends with a blank character that strict markup does not
count as white space. A start tag is written anew if a value in it does not
stand in quotes for the reading that keeps spelling, and this happens although
the strict reading has found quotes around every value. The two readings disagree
about a key that begins with an equals sign: one takes the sign as part of the
key, the other as the end of a key that is missing. `serialize_parse_ne` is the
shortest text of this kind, and it is written differently from how it was read.

`serialize_parse_eq_iff` says that under the condition that names and keys have
no blank characters this is the only way to lose spelling: what is written is
what was read exactly if every start tag is `Quoted`, and that is so whenever no
key begins with an equals sign.

The same condition decides whether each node at the top has kept its part of the
text. `Sliced` divides the tokens of a text among the nodes at the top, in their
order, with nothing but dropped tokens between them.

## Main definitions

* `Token.respelled`: The token that is written for one that was read.
* `Token.Quoted`: Whether every value of a tag stands in quotes.
* `Token.name?`, `Token.keys`, `Token.Solid`: Names and keys without blanks.
* `Sliced`: The tokens of a text divided among the nodes at the top.

## Theorems

* `respelled_eq_or_length_lt`: What is not written as it was read is written
  longer.
* `respelled_eq_iff`: The one way to lose spelling.
* `writeAll_eq_iff`: A text comes back if each of its tokens does.
* `sliced_iff`: And then each node at the top keeps its part.
* `serialize_parse_eq_iff`: When a text is written as it was read.
* `serialize_parse_ne`: A text that is not.
-/

namespace SoleRoot

namespace Faithful

namespace Token

/-- The token that is written for one that was read. -/
def respelled : Token → Token
  | startTag content => startTag (tagName content ++ respell (tagRest content))
  | selfClosingTag content => selfClosingTag (tagName content ++ respell (tagRest content))
  | endTag content => endTag (endName content ++ Text.trailing Text.isBlank content)
  | t => t

/-- Whether every value of a start tag stands in quotes for the reading that
    keeps spelling. -/
def Quoted : Token → Prop
  | startTag content | selfClosingTag content => Faithful.Quoted (tagRest content)
  | _ => True

/-- The name of a tag. -/
def name? : Token → Option (List Char)
  | startTag content | selfClosingTag content => some (tagName content)
  | endTag content => some (endName content)
  | _ => none

/-- The keys of a start tag, as the strict reading finds them. -/
def keys : Token → List (List Char)
  | startTag content | selfClosingTag content =>
    match declarations (Text.byteSize (tagName content)) (tagRest content) with
    | .ok ds => ds.map Declaration.key
    | .error _ => []
  | _ => []

/-- Whether no name and no key has a blank character. -/
structure Solid (t : Token) : Prop where
  name : ∀ name ∈ t.name?, ∀ c ∈ name, Text.isBlank c = false
  keys : ∀ key ∈ t.keys, ∀ c ∈ key, Text.isBlank c = false

instance (t : Token) : Decidable t.Solid :=
  decidable_of_iff ((t.name?.all (·.all (!Text.isBlank ·)) &&
      t.keys.all (·.all (!Text.isBlank ·))) = true) <| by
    simp only [Bool.and_eq_true, Option.all_eq_true, List.all_eq_true, Bool.not_eq_true']
    exact ⟨fun h => ⟨h.1, h.2⟩, fun h => ⟨h.name, h.keys⟩⟩

/-- An event is written as the token that it came from, respelled. -/
theorem token_of_ownEvent? {t : Token} {e : Event} (h : t.ownEvent? = some e) :
    e.token = t.respelled := by
  cases t with
  | startTag content =>
      rcases Option.some.inj h with rfl
      rw [Event.token, tagContent_spelledTag, respelled]
  | selfClosingTag content =>
      rcases Option.some.inj h with rfl
      rw [Event.token, tagContent_spelledTag, respelled]
  | endTag content =>
      rcases Option.some.inj h with rfl
      rw [Event.token, endSpace_raw, spelling_unusual?, String.toList_ofList, respelled]
  | text content | comment content | cdata content =>
      rcases Option.some.inj h with rfl
      rw [Event.token, String.toList_ofList, respelled]
      all_goals simp
  | doctype content | instruction content => simp [ownEvent?, event?] at h

/-- An end tag is either written as it was read or written longer: the blank
    characters at its end include its white space. -/
theorem endName_or_length_lt (content : List Char) :
    endName content ++ Text.trailing Text.isBlank content = content ∨
      content.length < (endName content ++ Text.trailing Text.isBlank content).length := by
  rw [List.length_append]
  unfold endName
  split
  · rename_i hspace
    have htrailing : Text.trailing Text.isBlank content = content := by
      rw [← List.nil_append (Text.trailing _ _)]
      exact Text.trailing_append (a := []) (fun c hc => by simp at hc) fun c hc =>
        Text.isBlank_of_isXmlSpace (List.all_eq_true.1 hspace c hc)
    rw [htrailing]
    cases content with
    | nil => exact .inl rfl
    | cons c cs =>
        right
        rw [List.length_cons]
        omega
  · have hsplit := Text.trimEnd_append_trailing Text.isXmlSpace content
    have hlength := congrArg List.length hsplit
    rw [List.length_append] at hlength
    -- Both classes of characters are counted from the end of the same text.
    have hsuffix : Text.trailing Text.isXmlSpace content <:+ Text.trailing Text.isBlank content :=
      Text.trailing_suffix_trailing fun c hc => Text.isBlank_of_isXmlSpace hc
    rcases Nat.lt_or_eq_of_le hsuffix.length_le with hlt | heq
    · right
      omega
    · left
      rw [← hsuffix.eq_of_length heq, hsplit]

/-- The blank characters at the end of an end tag are its white space, if its
    name has none. -/
theorem endName_append_trailing {content : List Char}
    (h : ∀ c ∈ endName content, Text.isBlank c = false) :
    endName content ++ Text.trailing Text.isBlank content = content := by
  unfold endName at h ⊢
  split
  · rename_i hspace
    -- White space alone would be the name, so there is none.
    rw [if_pos hspace] at h
    have hnil : content = [] := by
      refine List.eq_nil_iff_forall_not_mem.2 fun c hc => ?_
      have hblank := Text.isBlank_of_isXmlSpace (List.all_eq_true.1 hspace c hc)
      rw [h c hc] at hblank
      exact Bool.noConfusion hblank
    rw [hnil]
    rfl
  · rename_i hspace
    rw [if_neg hspace] at h
    have hsplit := Text.trimEnd_append_trailing Text.isXmlSpace content
    have htrailing : Text.trailing Text.isBlank content =
        Text.trailing Text.isXmlSpace content := by
      rw [← hsplit]
      rw [Text.trailing_append (fun c hc => h c (List.mem_of_getLast? hc))
        (fun c hc => Text.isBlank_of_isXmlSpace (Text.of_mem_trailing c hc)), hsplit]
    rw [htrailing, hsplit]

/-- Every token is either written as it was read or written longer. -/
theorem respelled_eq_or_length_lt (t : Token) :
    t.respelled = t ∨ t.raw.length < t.respelled.raw.length := by
  cases t with
  | startTag content | selfClosingTag content =>
      have hcontent := tagName_append_tagRest content
      rcases quoted_or_length_lt (tagRest content) with hquoted | hlonger
      · left
        -- The name is written as it is, so the section decides.
        rw [respelled, respell_of_quoted hquoted, hcontent]
      · right
        have hlength := congrArg List.length hcontent
        rw [List.length_append] at hlength
        simp only [respelled, raw, List.length_append, List.length_cons, List.length_nil]
        omega
  | endTag content =>
      rcases endName_or_length_lt content with heq | hlonger
      · left
        rw [respelled, heq]
      · right
        simp only [respelled, raw, List.length_append, List.length_cons,
          List.length_nil] at hlonger ⊢
        omega
  | _ => exact .inl rfl

/-- Names and keys without blank characters leave one way to lose spelling. -/
theorem respelled_eq_iff {t : Token} (hsolid : t.Solid) : t.respelled = t ↔ t.Quoted := by
  cases t with
  | startTag content | selfClosingTag content =>
      have hcontent := tagName_append_tagRest content
      simp only [respelled, Token.Quoted, ← respell_eq_iff, startTag.injEq, selfClosingTag.injEq]
      constructor
      · intro h
        exact List.append_cancel_left (h.trans hcontent.symm)
      · intro h
        rw [h, hcontent]
  | endTag content =>
      simp only [respelled, endName_append_trailing (hsolid.name _ rfl), Token.Quoted]
  | _ => simp only [respelled, Token.Quoted]

end Token

/-- The text of a tree that was read is that of its tokens, each respelled. -/
theorem writeAll_eq_respelled {nodes : List Node} {ts : List Token}
    (h : flattenAll nodes = ts.filterMap Token.ownEvent?) :
    writeAll nodes = (ts.filter Token.isKept).flatMap (Token.raw ∘ Token.respelled) := by
  rw [writeAll_eq, h]
  clear h
  -- A token that is kept has one event, and the others have none.
  induction ts with
  | nil => rfl
  | cons t ts ih =>
      cases he : t.ownEvent? with
      | none =>
          have hdropped : ¬ t.isKept = true := by
            rw [Token.ownEvent?_eq_none_iff.1 he]
            exact Bool.false_ne_true
          rw [List.filterMap_cons_none he, ih, List.filter_cons_of_neg hdropped]
      | some e =>
          have hkept : t.isKept = true := eq_true_of_ne_false fun hdropped => by
            rw [Token.ownEvent?_eq_none_iff.2 hdropped] at he
            exact absurd he.symm (Option.some_ne_none e)
          rw [List.filterMap_cons_some he, List.filter_cons_of_pos hkept, List.flatMap_cons, ih,
            List.flatMap_cons, Function.comp_apply, Token.token_of_ownEvent? he]
          rfl

section Lengths

variable {ts : List Token}

theorem length_flatMap_raw_le (ts : List Token) :
    (ts.flatMap Token.raw).length ≤ (ts.flatMap (Token.raw ∘ Token.respelled)).length := by
  induction ts with
  | nil => exact le_rfl
  | cons t ts ih =>
      have htoken : t.raw.length ≤ t.respelled.raw.length := by
        rcases t.respelled_eq_or_length_lt with heq | hlonger
        · rw [heq]
        · exact hlonger.le
      simp only [List.flatMap_cons, List.length_append, Function.comp_apply]
      exact Nat.add_le_add htoken ih

/-- No token is written shorter than it was read, so the text comes back only if
    every token does. -/
theorem flatMap_respelled_eq_iff :
    ts.flatMap (Token.raw ∘ Token.respelled) = ts.flatMap Token.raw ↔
      ∀ t ∈ ts, t.respelled = t := by
  constructor
  · intro h
    induction ts with
    | nil => simp
    | cons t ts ih =>
        rw [List.flatMap_cons, List.flatMap_cons, Function.comp_apply] at h
        rcases t.respelled_eq_or_length_lt with heq | hlonger
        · -- Equal tokens are taken away from both sides.
          rw [heq] at h
          exact List.forall_mem_cons.2 ⟨heq, ih (List.append_cancel_left h)⟩
        · -- What is too long here cannot be made up for behind.
          have hlength := congrArg List.length h
          have hle := length_flatMap_raw_le ts
          simp only [List.length_append] at hlength
          omega
  · intro h
    refine List.flatMap_congr fun t ht => ?_
    rw [Function.comp_apply, h t ht]

end Lengths

/-- The tokens that a node was read from, without dropped ones at either end,
    and that the node keeps: it is written as they are, less what was dropped
    between them. -/
structure Spans (n : Node) (own : List Token) : Prop where
  first_kept : ∀ t ∈ own.head?, t.isKept = true
  last_kept : ∀ t ∈ own.getLast?, t.isKept = true
  events : flatten n = own.filterMap Token.ownEvent?
  write_eq : write n = (own.filter Token.isKept).flatMap Token.raw

/-- The tokens of a text divided among the nodes at the top, in their order, with
    nothing but dropped tokens between them. -/
inductive Sliced : List Node → List Token → Prop where
  | nil {gap : List Token} : (∀ t ∈ gap, t.isKept = false) → Sliced [] gap
  | cons {n : Node} {ns : List Node} {gap own rest : List Token} :
    (∀ t ∈ gap, t.isKept = false) → Spans n own → Sliced ns rest →
      Sliced (n :: ns) (gap ++ own ++ rest)

theorem filter_isKept_of_dropped {gap : List Token} (h : ∀ t ∈ gap, t.isKept = false) :
    gap.filter Token.isKept = [] :=
  List.filter_eq_nil_iff.2 fun t ht => by rw [h t ht]; exact Bool.false_ne_true

theorem writeAll_of_sliced {nodes : List Node} {ts : List Token} (h : Sliced nodes ts) :
    writeAll nodes = (ts.filter Token.isKept).flatMap Token.raw := by
  induction h with
  | nil hgap => rw [filter_isKept_of_dropped hgap, writeAll, List.flatMap_nil]
  | cons hgap hspans _ ih =>
      rw [List.filter_append, List.filter_append, filter_isKept_of_dropped hgap, List.nil_append,
        List.flatMap_append, writeAll, hspans.write_eq, ih]

/-- The part of a list that a row of its images comes from. -/
theorem exists_span {α β : Type} {f : α → Option β} {as : List α} {e : β} {es ys : List β}
    (h : as.filterMap f = e :: es ++ ys) :
    ∃ gap own rest, as = gap ++ own ++ rest ∧ (∀ a ∈ gap, f a = none) ∧
      own.filterMap f = e :: es ∧ rest.filterMap f = ys ∧
      (∀ a ∈ own.head?, f a ≠ none) ∧ ∀ a ∈ own.getLast?, f a ≠ none := by
  rcases List.filterMap_eq_append_iff.1 h with ⟨front, rest, rfl, hfront, hrest⟩
  -- What has no image at the end of the front goes to the rest.
  have hsplit := List.rdropWhile_append_rtakeWhile (p := fun a => (f a).isNone) (l := front)
  have htail : (front.rtakeWhile fun a => (f a).isNone).filterMap f = [] :=
    List.filterMap_eq_nil_iff.2 fun a ha => by
      have hnone := List.mem_rtakeWhile_imp ha
      exact Option.isNone_iff_eq_none.1 hnone
  have hcore : (front.rdropWhile fun a => (f a).isNone).filterMap f = e :: es := by
    rw [← hsplit, List.filterMap_append, htail, List.append_nil] at hfront
    exact hfront
  rcases List.filterMap_eq_cons_iff.1 hcore with ⟨gap, a, own, hown, hgap, ha, hes⟩
  refine ⟨gap, a :: own, (front.rtakeWhile fun a => (f a).isNone) ++ rest, ?_, hgap, ?_, ?_, ?_, ?_⟩
  · rw [← List.append_assoc, ← hown, hsplit]
  · rw [List.filterMap_cons_some ha, hes]
  · rw [List.filterMap_append, htail, List.nil_append, hrest]
  · intro b hb
    rw [← Option.some.inj hb, ha]
    exact Option.some_ne_none e
  · intro b hb
    have hlast : b ∈ (front.rdropWhile fun a => (f a).isNone).getLast? := by
      rw [hown, List.getLast?_append, hb]
      rfl
    rcases List.mem_getLast?_eq_getLast hlast with ⟨hne, heq⟩
    have hnot := List.rdropWhile_last_not (fun a => (f a).isNone) front hne
    rw [← heq] at hnot
    simpa using hnot

theorem sliced_of_respelled {nodes : List Node} {ts : List Token}
    (hts : ∀ t ∈ ts, t.respelled = t) (h : flattenAll nodes = ts.filterMap Token.ownEvent?) :
    Sliced nodes ts := by
  induction nodes generalizing ts with
  | nil =>
      rw [flattenAll_nil, eq_comm, List.filterMap_eq_nil_iff] at h
      exact .nil fun t ht => Token.ownEvent?_eq_none_iff.1 (h t ht)
  | cons n ns ih =>
      rcases exists_head_flatten n with ⟨e, es, hflatten, _⟩
      rw [flattenAll_cons, hflatten, eq_comm] at h
      rcases exists_span h with ⟨gap, own, rest, rfl, hgap, hown, hrest, hfirst, hlast⟩
      have hmem {t : Token} (ht : t ∈ own) : t ∈ gap ++ own ++ rest :=
        List.mem_append_left _ (List.mem_append_right _ ht)
      have hevents : flattenAll [n] = own.filterMap Token.ownEvent? := by
        rw [flattenAll_cons, flattenAll_nil, List.append_nil, hflatten, hown]
      have hkept {t : Token} (ht : t.ownEvent? ≠ none) : t.isKept = true :=
        eq_true_of_ne_false fun hdropped => ht (Token.ownEvent?_eq_none_iff.2 hdropped)
      refine .cons (fun t ht => Token.ownEvent?_eq_none_iff.1 (hgap t ht))
        ⟨fun t ht => hkept (hfirst t ht), fun t ht => hkept (hlast t ht),
          hflatten.trans hown.symm, ?_⟩
        (ih (fun t ht => hts t (List.mem_append_right _ ht)) hrest.symm)
      -- The node is a tree of its own, written as its own tokens.
      have hwrite := writeAll_eq_respelled hevents
      rw [writeAll, writeAll, List.append_nil] at hwrite
      rw [hwrite]
      exact flatMap_respelled_eq_iff.2 fun t ht => hts t (hmem (List.mem_of_mem_filter ht))

/-- The text of a tree that was read is that of its tokens exactly if each is
    written as it was read. -/
theorem writeAll_eq_iff {nodes : List Node} {ts : List Token}
    (h : flattenAll nodes = ts.filterMap Token.ownEvent?) :
    writeAll nodes = (ts.filter Token.isKept).flatMap Token.raw ↔ ∀ t ∈ ts, t.respelled = t := by
  rw [writeAll_eq_respelled h, flatMap_respelled_eq_iff]
  constructor
  · intro hkept t ht
    by_cases htk : t.isKept = true
    · exact hkept t (List.mem_filter.2 ⟨ht, htk⟩)
    · -- What is dropped has no spelling to lose.
      cases t with
      | doctype content | instruction content => rfl
      | _ => exact absurd rfl htk
  · exact fun hall t ht => hall t (List.mem_of_mem_filter ht)

/-- Each node at the top keeps its part of the text exactly if each token is
    written as it was read. -/
theorem sliced_iff {nodes : List Node} {ts : List Token}
    (h : flattenAll nodes = ts.filterMap Token.ownEvent?) :
    Sliced nodes ts ↔ ∀ t ∈ ts, t.respelled = t := by
  constructor
  · exact fun hsliced => (writeAll_eq_iff h).1 (writeAll_of_sliced hsliced)
  · exact fun hts => sliced_of_respelled hts h

/-- The text of a source without what a tree drops. -/
def keptText (source : List Char) : List Char :=
  ((cut source).tokens.filter Token.isKept).flatMap Token.raw

/-- The keys of a start tag are those of the section it was accepted for. -/
theorem exists_clauses_of_valid {content : List Char} {t : Token}
    (ht : t = .startTag content ∨ t = .selfClosingTag content) (hvalid : t.Valid) :
    ∃ s : Clauses, tagRest content = s.text ∧ s.Valid ∧ t.keys = s.keys := by
  have hsection : ∃ s : Clauses, tagRest content = s.text ∧ s.Valid := by
    rcases ht with rfl | rfl <;> exact hvalid
  -- The strict reading succeeds, and its declarations are clauses one for one.
  rcases (exists_declarations_iff (Text.byteSize (tagName content))).2 hsection with ⟨ds, hds⟩
  rcases exists_clauses_of_declarations hds with ⟨s, htext, hs, hparts⟩
  refine ⟨s, htext, hs, ?_⟩
  have hkeys : t.keys = ds.map Declaration.key := by
    rcases ht with rfl | rfl <;> simp only [Token.keys, hds]
  have hfst := congrArg (List.map Prod.fst) hparts
  rw [List.map_map, List.map_map] at hfst
  rw [hkeys]
  exact hfst

namespace Token

/-- If no key begins with an equals sign, then the two readings agree about the
    tag. -/
theorem plain_of_keys {t : Token} {s : Clauses} (hkeys : t.keys = s.keys) (hsolid : t.Solid)
    (hequals : ∀ key ∈ t.keys, key.head? ≠ some '=') : s.Plain := by
  intro c hc
  have hkey : c.key ∈ t.keys := hkeys ▸ List.mem_map_of_mem hc
  exact ⟨fun hfirst => hequals c.key hkey (congrArg some hfirst), hsolid.keys c.key hkey⟩

theorem quoted_of_keys {t : Token} (hvalid : t.Valid) (hsolid : t.Solid)
    (hequals : ∀ key ∈ t.keys, key.head? ≠ some '=') : t.Quoted := by
  cases t with
  | startTag content =>
      rcases exists_clauses_of_valid (.inl rfl) hvalid with ⟨s, htext, _, hkeys⟩
      rw [Token.Quoted, htext]
      exact Clauses.quoted_of_plain (plain_of_keys hkeys hsolid hequals)
  | selfClosingTag content =>
      rcases exists_clauses_of_valid (.inr rfl) hvalid with ⟨s, htext, _, hkeys⟩
      rw [Token.Quoted, htext]
      exact Clauses.quoted_of_plain (plain_of_keys hkeys hsolid hequals)
  | _ => trivial

end Token

theorem serialize_eq_ofList_writeAll {d : Document} (h : d.mode = .faithful) :
    d.serialize = String.ofList (writeAll d.nodes) := by
  rw [Document.serialize, h]
  refine congrArg String.ofList ?_
  induction d.nodes with
  | nil => rw [writeAll, List.flatMap_nil]
  | cons n ns ih => rw [writeAll, List.flatMap_cons, ih, Node.write]

end Faithful

open Faithful

/-- An accepted text, its names and keys without blank characters, is written as
    it was read, less what a tree drops, exactly if its tokens are quoted. The
    nodes at the top then divide it among them. Quotes can be missing only if
    some key begins with an equals sign. -/
theorem serialize_parse_eq_iff {source : String} {d : Document}
    (h : Document.parse .faithful source = .ok d) (hmark : source.toList.head? ≠ some '\uFEFF')
    (hsolid : ∀ t ∈ (cut source.toList).tokens, t.Solid) :
    (cut source.toList).tokens.flatMap Token.raw = source.toList ∧
      (d.serialize = String.ofList (keptText source.toList) ↔
        ∀ t ∈ (cut source.toList).tokens, t.Quoted) ∧
      (Sliced d.nodes (cut source.toList).tokens ↔ ∀ t ∈ (cut source.toList).tokens, t.Quoted) ∧
      ((∀ t ∈ (cut source.toList).tokens, t.Quoted ∧ t.isKept = true) → d.serialize = source) ∧
      ((∀ t ∈ (cut source.toList).tokens, ∀ key ∈ t.keys, key.head? ≠ some '=') →
        ∀ t ∈ (cut source.toList).tokens, t.Quoted) := by
  rcases parse_eq_ok_iff_read.1 h with ⟨hmode, hread⟩
  rcases (read_eq_ok_iff_of_unmarked hmark).1 hread with ⟨hacceptable, hflatten⟩
  have hraw := raw_cut hacceptable.terminated
  -- Token by token, to be quoted is to be written as it was read.
  have hquoted : (∀ t ∈ (cut source.toList).tokens, t.respelled = t) ↔
      ∀ t ∈ (cut source.toList).tokens, t.Quoted :=
    forall₂_congr fun t ht => Token.respelled_eq_iff (hsolid t ht)
  have hserialize : d.serialize = String.ofList (keptText source.toList) ↔
      ∀ t ∈ (cut source.toList).tokens, t.Quoted := by
    rw [serialize_eq_ofList_writeAll hmode, String.ofList_inj, ← hquoted]
    exact writeAll_eq_iff hflatten
  refine ⟨hraw, hserialize, (sliced_iff hflatten).trans hquoted, ?_, ?_⟩
  · intro hall
    rw [hserialize.2 fun t ht => (hall t ht).1, keptText,
      List.filter_eq_self.2 fun t ht => (hall t ht).2, hraw, String.ofList_toList]
  · exact fun hequals t ht =>
      Token.quoted_of_keys (hacceptable.valid t ht) (hsolid t ht) (hequals t ht)

/-- A text in which nothing is lost but its declaration. -/
theorem serialize_parse_declared :
    ∃ d, Document.parse .faithful "<?xml version='1.0'?><a x = '1' >b<c y=\"2\"/></a >" = .ok d ∧
      d.serialize = "<a x = '1' >b<c y=\"2\"/></a >" := by
  have hparse : (Document.parse .faithful
      "<?xml version='1.0'?><a x = '1' >b<c y=\"2\"/></a >").toOption.isSome = true := by cbv
  obtain ⟨d, hd⟩ : ∃ d, Document.parse .faithful
      "<?xml version='1.0'?><a x = '1' >b<c y=\"2\"/></a >" = .ok d := by
    revert hparse
    cases Document.parse .faithful "<?xml version='1.0'?><a x = '1' >b<c y=\"2\"/></a >" with
    | error m => simp [Except.toOption]
    | ok d => exact fun _ => ⟨d, rfl⟩
  have hmain := serialize_parse_eq_iff hd (by decide) (by decide +kernel)
  refine ⟨d, hd, (hmain.2.1.2 (hmain.2.2.2.2 (by decide +kernel))).trans ?_⟩
  cbv

/-- A key that begins with an equals sign: the strict reading accepts the text,
    and the value that is written has quotes inside its quotes. -/
theorem serialize_parse_ne :
    ∃ d, Document.parse .faithful "<a =='1'/>" = .ok d ∧
      "<a =='1'/>".toList.head? ≠ some '\uFEFF' ∧
      (∀ t ∈ (cut "<a =='1'/>".toList).tokens, t.Solid) ∧
      d.serialize = "<a =\"='1'\"/>" ∧
      d.serialize ≠ String.ofList (keptText "<a =='1'/>".toList) := by
  refine ⟨⟨.faithful, [.element
    { name := "a"
      attributes := [{ name := "", value := "='1'" }]
      selfClosing := true } []]⟩, by cbv, by decide, by decide +kernel, by cbv, ?_⟩
  have hkept : keptText "<a =='1'/>".toList = "<a =='1'/>".toList := by cbv
  rw [hkept]
  decide +kernel

end SoleRoot

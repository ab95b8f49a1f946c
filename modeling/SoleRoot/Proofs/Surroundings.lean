import SoleRoot.Proofs.Faithful.Appending
import SoleRoot.Proofs.FixedPoint

/-!
# What Stands Around Markup

Why a prolog, comments and white space at the top of a text do not change its
root.

Between blocks of markup there may be a `Filler`: white space of strict markup,
comments, and constructs that leave nothing in the tree, in any order. A dropped
construct divides white space into several texts, so a filler can be read as any
number of nodes. What they have in common is that none of them counts at the top
of a document.

A `Block` is a text that is accepted by itself, and whose first and last tokens
are constructs. So no text run goes on from a block into a filler or from a
filler into a block, and blocks with fillers around them are read one after the
other. What is left when the nodes that do not count are taken away is what is
left of the blocks alone, and the root depends on nothing else.

## Main definitions

* `Token.isAside`: A comment, or a construct that leaves nothing in the tree.
* `Filler`: What may stand around blocks.
* `Block`: A text between two constructs.

## Theorems

* `read_filler`: A filler has no node that counts.
* `read_surrounded`: Blocks with fillers have the nodes of the blocks alone, but
  for nodes that do not count.
* `resolve_surrounded`: They have the same root.
-/

namespace SoleRoot

namespace Faithful

/-- Whether a token is a comment or leaves nothing in the tree. -/
def Token.isAside : Token → Bool
  | comment _ | instruction _ | doctype _ => true
  | _ => false

/-- What may stand around blocks of markup. -/
inductive Filler : List Char → Prop where
  | nil : Filler []
  | space {c : Char} {cs : List Char} (hc : Text.isXmlSpace c = true) (h : Filler cs) :
    Filler (c :: cs)
  | aside {t : Token} {cs : List Char} (haside : t.isAside = true) (hwhole : t.Whole)
    (hvalid : t.Valid) (h : Filler cs) : Filler (t.raw ++ cs)

/-- Whether a token can stand in a filler. -/
def Token.Idle : Token → Prop
  | text content => ∀ c ∈ content, Text.isXmlSpace c = true
  | t => t.isAside = true

theorem Token.idle_of_isAside {t : Token} (h : t.isAside = true) : t.Idle := by
  cases t with
  | text content => exact Bool.noConfusion h
  | _ => exact h

theorem Token.isText_of_isAside {t : Token} (h : t.isAside = true) : t.isText = false := by
  cases t with
  | text content => exact Bool.noConfusion h
  | _ => rfl

/-- A text without an ampersand has no reference to check. -/
theorem checkFrom_of_not_mem {stop start : Nat} {cs : List Char} (h : '&' ∉ cs) :
    checkFrom stop start cs = .ok () := by
  induction cs generalizing start with
  | nil => rfl
  | cons c cs ih =>
      rw [List.mem_cons, not_or] at h
      rw [checkFrom, if_neg (Ne.symm h.1)]
      exact ih h.2

theorem valid_space {content : List Char} (h : ∀ c ∈ content, Text.isXmlSpace c = true) :
    (Token.text content).Valid :=
  checkFrom_of_not_mem fun hmem => absurd (h '&' hmem) (by decide)

theorem whole_space {content : List Char} (hne : content ≠ [])
    (h : ∀ c ∈ content, Text.isXmlSpace c = true) : (Token.text content).Whole :=
  whole_text hne fun hmem => absurd (h '<' hmem) (by decide)

/-- The tokens of a filler. White space side by side is one text run. -/
theorem exists_tokens_of_filler {cs : List Char} (h : Filler cs) :
    ∃ ts : List Token, ts.flatMap Token.raw = cs ∧
      (∀ t ∈ ts, t.Whole ∧ t.Valid ∧ t.Idle) ∧ Separate ts := by
  induction h with
  | nil => exact ⟨[], rfl, by simp, List.isChain_nil⟩
  | @aside t cs haside hwhole hvalid _ ih =>
      rcases ih with ⟨ts, rfl, hts, hsep⟩
      refine ⟨t :: ts, rfl,
        List.forall_mem_cons.2 ⟨⟨hwhole, hvalid, t.idle_of_isAside haside⟩, hts⟩,
        List.isChain_cons.2 ⟨fun u _ htext => ?_, hsep⟩⟩
      rw [t.isText_of_isAside haside] at htext
      exact Bool.noConfusion htext
  | @space c cs hc _ ih =>
      rcases ih with ⟨ts, rfl, hts, hsep⟩
      -- The character joins a text run that is there, or is one.
      cases ts with
      | nil =>
          have hspace : ∀ d ∈ [c], Text.isXmlSpace d = true := by simpa using hc
          exact ⟨[.text [c]], rfl, List.forall_mem_singleton.2
            ⟨whole_space (by simp) hspace, valid_space hspace, hspace⟩, List.isChain_singleton _⟩
      | cons t ts =>
          rcases List.forall_mem_cons.1 hts with ⟨ht, hrest⟩
          cases htext : t.isText with
          | false =>
              have hspace : ∀ d ∈ [c], Text.isXmlSpace d = true := by simpa using hc
              exact ⟨.text [c] :: t :: ts, rfl, List.forall_mem_cons.2
                ⟨⟨whole_space (by simp) hspace, valid_space hspace, hspace⟩,
                  List.forall_mem_cons.2 ⟨ht, hrest⟩⟩,
                List.isChain_cons_cons.2 ⟨fun _ => htext, hsep⟩⟩
          | true =>
              cases t with
              | text content =>
                  have hspace : ∀ d ∈ c :: content, Text.isXmlSpace d = true :=
                    List.forall_mem_cons.2 ⟨hc, ht.2.2⟩
                  refine ⟨.text (c :: content) :: ts, rfl, List.forall_mem_cons.2
                    ⟨⟨whole_space (by simp) hspace, valid_space hspace, hspace⟩, hrest⟩, ?_⟩
                  rcases List.isChain_cons.1 hsep with ⟨hnext, hsep⟩
                  exact List.isChain_cons.2 ⟨fun u hu _ => hnext u hu rfl, hsep⟩
              | _ => exact Bool.noConfusion htext

theorem walk_idle {t : Token} (h : t.Idle) (names : List String) : t.walk names = some names := by
  cases t with
  -- Only tags change which elements are open.
  | startTag content | selfClosingTag content | endTag content | cdata content =>
      exact Bool.noConfusion h
  | _ => rfl

theorem walk_idle_all {ts : List Token} (h : ∀ t ∈ ts, t.Idle) (names : List String) :
    ts.foldlM Token.walk names = some names := by
  induction ts with
  | nil => rfl
  | cons t ts ih =>
      rcases List.forall_mem_cons.1 h with ⟨ht, hts⟩
      rw [List.foldlM_cons, walk_idle ht names]
      exact ih hts

/-- What a token of a filler leaves in the tree. -/
theorem ownEvent?_idle {t : Token} (h : t.Idle) {e : Event} (he : t.ownEvent? = some e) :
    (∃ content, e = .comment content) ∨
      ∃ content, e = .text content ∧ ∀ c ∈ content.toList, Text.isXmlSpace c = true := by
  cases t with
  | text content =>
      rcases Option.some.inj he with rfl
      exact .inr ⟨_, rfl, by rw [String.toList_ofList]; exact h⟩
  | comment content =>
      rcases Option.some.inj he with rfl
      exact .inl ⟨_, rfl⟩
  | doctype content | instruction content => simp [Token.ownEvent?, Token.event?] at he
  | startTag content | selfClosingTag content | endTag content | cdata content =>
      exact Bool.noConfusion h

/-- A node whose first event is a comment or white space does not count. -/
theorem not_isKept_of_head {n : Node} {e : Event} {es : List Event} (hn : flatten n = e :: es)
    (he : (∃ content, e = .comment content) ∨
      ∃ content, e = .text content ∧ ∀ c ∈ content.toList, Text.isXmlSpace c = true) :
    n.isKept = false := by
  cases n with
  -- The first event of an element is its start.
  | element tag children =>
      rw [flatten] at hn
      split at hn
      · rcases he with ⟨content, rfl⟩ | ⟨content, rfl, _⟩ <;> simp at hn
      · rcases he with ⟨content, rfl⟩ | ⟨content, rfl, _⟩ <;> simp at hn
  | text content =>
      rw [flatten, List.cons.injEq] at hn
      rcases he with ⟨other, rfl⟩ | ⟨other, rfl, hspace⟩
      · exact absurd hn.1 (by simp)
      · rcases Event.text.inj hn.1 with rfl
        have hblank : (Node.text content).isBlankText = true :=
          List.all_eq_true.2 fun c hc => Text.isBlank_of_isXmlSpace (hspace c hc)
        rw [Node.isKept, hblank, Bool.not_true, Bool.false_and]
  | comment content => rfl
  | cdata content =>
      rw [flatten, List.cons.injEq] at hn
      rcases he with ⟨other, rfl⟩ | ⟨other, rfl, _⟩
      · exact absurd hn.1 (by simp)
      · exact absurd hn.1 (by simp)

/-- A filler begins with white space or with a construct. -/
theorem head?_filler {cs : List Char} (h : Filler cs) : cs.head? ≠ some '\uFEFF' := by
  cases h with
  | nil => simp
  | space hc _ =>
      rintro hmark
      rw [Option.some.inj hmark] at hc
      exact absurd hc (by decide)
  | @aside t cs haside hwhole _ _ =>
      rw [List.head?_append_of_ne_nil _ hwhole.raw_ne_nil,
        Token.head?_raw (t.isText_of_isAside haside)]
      decide

/-- A filler is accepted, and none of its nodes counts. -/
theorem read_filler {cs : List Char} (h : Filler cs) :
    ∃ nodes, read cs = .ok nodes ∧ nodes.filter Node.isKept = [] := by
  have hmark := head?_filler h
  rcases exists_tokens_of_filler h with ⟨ts, rfl, hts, hsep⟩
  have hcut := cut_flatMap_raw (fun t ht => (hts t ht).1) hsep
  have hacceptable : Acceptable (cut (Text.dropMark (ts.flatMap Token.raw))) := by
    rw [Text.dropMark_of_unmarked hmark, hcut]
    exact ⟨rfl, fun t ht => (hts t ht).2.1, walk_idle_all (fun t ht => (hts t ht).2.2) []⟩
  rcases exists_read hacceptable with ⟨nodes, hread⟩
  refine ⟨nodes, hread, List.filter_eq_nil_iff.2 fun n hn hkept => ?_⟩
  -- The first event of a node comes from a token of the filler.
  rcases (read_eq_ok_iff_of_unmarked hmark).1 hread with ⟨_, hevents⟩
  rw [hcut] at hevents
  rcases exists_head_flatten n with ⟨e, es, hflatten, _⟩
  have he : e ∈ flattenAll nodes := mem_flattenAll hn (by rw [hflatten]; exact List.mem_cons_self)
  rw [hevents] at he
  rcases List.mem_filterMap.1 he with ⟨t, ht, hevent⟩
  rw [not_isKept_of_head hflatten (ownEvent?_idle (hts t ht).2.2 hevent)] at hkept
  exact Bool.noConfusion hkept

/-- A text that is accepted by itself and lies between two constructs. -/
structure Block (source : String) : Prop where
  accepted : ∃ d, Document.parse .faithful source = .ok d
  opens : source.toList.head? = some '<'
  closes : ∀ t ∈ (cut source.toList).tokens.getLast?, t.isText = false

/-- The text of blocks, a filler behind each. -/
def surrounded (blocks : List (String × String)) : String :=
  String.join (blocks.map fun b => b.1 ++ b.2)

theorem toList_surrounded_cons (b : String × String) (blocks : List (String × String)) :
    (surrounded (b :: blocks)).toList =
      b.1.toList ++ (b.2.toList ++ (surrounded blocks).toList) := by
  simp [surrounded]

theorem toList_join_cons (b : String × String) (blocks : List (String × String)) :
    (String.join ((b :: blocks).map Prod.fst)).toList =
      b.1.toList ++ (String.join (blocks.map Prod.fst)).toList := by
  simp

/-- Blocks begin with a bracket, whether they have fillers behind them or not. -/
theorem head?_of_blocks {blocks : List (String × String)} {rest : List Char} {b : String × String}
    (hb : Block b.1) (h : rest = (surrounded (b :: blocks)).toList ∨
      rest = (String.join ((b :: blocks).map Prod.fst)).toList) : rest.head? = some '<' := by
  rw [toList_surrounded_cons, toList_join_cons] at h
  rcases h with rfl | rfl
  · rw [List.head?_append, hb.opens, Option.some_or]
  · rw [List.head?_append, hb.opens, Option.some_or]

theorem forall_head?_of_blocks {blocks : List (String × String)} {rest : List Char}
    (hblocks : ∀ b ∈ blocks, Block b.1) (h : rest = (surrounded blocks).toList ∨
      rest = (String.join (blocks.map Prod.fst)).toList) : ∀ c ∈ rest.head?, c = '<' := by
  cases blocks with
  | nil =>
      have hnil : rest = [] := by simpa [surrounded] using h
      simp [hnil]
  | cons b blocks =>
      intro c hc
      rw [head?_of_blocks (hblocks b List.mem_cons_self) h] at hc
      exact (Option.some.inj hc).symm

theorem unmarked_of_forall_head? {cs : List Char} (h : ∀ c ∈ cs.head?, c = '<') :
    cs.head? ≠ some '\uFEFF' :=
  fun hmark => absurd (h _ hmark) (by decide)

/-- Blocks with a filler behind each are read as the blocks alone, but for nodes
    that do not count. -/
theorem read_surrounded {blocks : List (String × String)}
    (h : ∀ b ∈ blocks, Block b.1 ∧ Filler b.2.toList) :
    ∃ ns ms, read (surrounded blocks).toList = .ok ns ∧
      read (String.join (blocks.map Prod.fst)).toList = .ok ms ∧
      ns.filter Node.isKept = ms.filter Node.isKept := by
  induction blocks with
  | nil => exact ⟨[], [], by cbv, by cbv, rfl⟩
  | cons b blocks ih =>
      rcases List.forall_mem_cons.1 h with ⟨⟨hblock, hfiller⟩, hblocks⟩
      rcases ih hblocks with ⟨ns, ms, hns, hms, hkept⟩
      rcases hblock.accepted with ⟨d, hd⟩
      have hread := (parse_eq_ok_iff_read.1 hd).2
      rcases read_filler hfiller with ⟨idle, hidle, hdropped⟩
      have hopens : b.1.toList.head? ≠ some '\uFEFF' := by rw [hblock.opens]; decide
      have hall : ∀ b ∈ blocks, Block b.1 := fun b hb => (hblocks b hb).1
      have hsurrounded := forall_head?_of_blocks hall (.inl rfl)
      have hjoined := forall_head?_of_blocks hall (.inr rfl)
      -- The filler ends at the bracket of the next block.
      have htail := read_append hidle hns (head?_filler hfiller)
        (unmarked_of_forall_head? hsurrounded) (meets_of_head hsurrounded)
      have hmark := unmarked_append (head?_filler hfiller) (unmarked_of_forall_head? hsurrounded)
      refine ⟨d.nodes ++ (idle ++ ns), d.nodes ++ ms, ?_, ?_, ?_⟩
      · rw [toList_surrounded_cons]
        exact read_append hread htail hopens hmark (meets_of_last hblock.closes)
      · rw [toList_join_cons]
        exact read_append hread hms hopens (unmarked_of_forall_head? hjoined)
          (meets_of_last hblock.closes)
      · rw [List.filter_append, List.filter_append, hdropped, List.nil_append,
          List.filter_append, hkept]

end Faithful

open Faithful

/-- The root of a document depends on the nodes that count and on nothing else. -/
theorem Document.rooted_congr {d e : Document} (hmode : d.mode = e.mode)
    (h : d.nodes.filter Node.isKept = e.nodes.filter Node.isKept) (directives : DirectiveSet) :
    d.rooted directives = e.rooted directives := by
  -- The container is put around the nodes that count.
  have hconsolidate : d.consolidate = e.consolidate := by
    unfold Document.consolidate
    rw [h, hmode]
  rw [Document.rooted, Document.rooted, hconsolidate]

/-- The container around nothing has the directives and nothing else. -/
theorem Document.rooted_nil (directives : DirectiveSet) :
    Document.rooted ⟨.faithful, []⟩ directives =
      ⟨.faithful,
        { name := containerName
          attributes := directives.names.map fun name => { name, value := "true" } }, true⟩ := by
  rcases directives with ⟨once, pre⟩
  cases once <;> cases pre <;> rfl

/-- Blocks have the same root whatever fillers stand around and between them, and
    fillers alone have an empty container for a root. -/
theorem resolve_surrounded {before : String} {blocks : List (String × String)}
    (hbefore : Filler before.toList) (h : ∀ b ∈ blocks, Block b.1 ∧ Filler b.2.toList)
    (directives : DirectiveSet) :
    ∃ root, resolve .faithful directives none (before ++ surrounded blocks) = .ok root ∧
      resolve .faithful directives none (String.join (blocks.map Prod.fst)) = .ok root ∧
      (blocks = [] → root =
        ⟨.faithful,
          { name := containerName
            attributes := directives.names.map fun name => { name, value := "true" } }, true⟩) := by
  rcases read_filler hbefore with ⟨idle, hidle, hdropped⟩
  rcases read_surrounded h with ⟨ns, ms, hns, hms, hkept⟩
  have hopens := forall_head?_of_blocks (fun b hb => (h b hb).1) (.inl rfl)
  have hwhole := read_append hidle hns (head?_filler hbefore) (unmarked_of_forall_head? hopens)
    (meets_of_head hopens)
  rw [← String.toList_append] at hwhole
  have hleft := resolve_of_parse (parse_eq_ok_iff_read (d := ⟨.faithful, _⟩).2 ⟨rfl, hwhole⟩)
    directives
  have hright := resolve_of_parse (parse_eq_ok_iff_read (d := ⟨.faithful, _⟩).2 ⟨rfl, hms⟩)
    directives
  have hsame : (idle ++ ns).filter Node.isKept = ms.filter Node.isKept := by
    rw [List.filter_append, hdropped, List.nil_append, hkept]
  have hroot : Document.rooted ⟨.faithful, idle ++ ns⟩ directives =
      Document.rooted ⟨.faithful, ms⟩ directives :=
    Document.rooted_congr (d := ⟨.faithful, idle ++ ns⟩) (e := ⟨.faithful, ms⟩) rfl hsame directives
  rw [hroot] at hleft
  refine ⟨_, hleft, hright, ?_⟩
  rintro rfl
  have hempty : Faithful.read (String.join (([] : List (String × String)).map Prod.fst)).toList =
      .ok [] := by cbv
  rw [← Except.ok.inj (hempty.symm.trans hms), Document.rooted_nil]

/-- A declaration in front of an image, and a type with brackets of its own and a
    comment behind it. -/
theorem resolve_surrounded_image :
    Filler "<?xml version='1.0'?>\n".toList ∧
      Block "<svg><g/></svg>" ∧ Filler " <!DOCTYPE a [<!ELEMENT b>]><!-- c -->".toList ∧
      ∃ root, resolve .faithful ⟨true, false⟩ none
          ("<?xml version='1.0'?>\n" ++
            surrounded [("<svg><g/></svg>", " <!DOCTYPE a [<!ELEMENT b>]><!-- c -->")]) = .ok root ∧
        resolve .faithful ⟨true, false⟩ none "<svg><g/></svg>" = .ok root := by
  have hbefore : Filler "<?xml version='1.0'?>\n".toList :=
    .aside (t := .instruction "xml version='1.0'".toList) rfl ⟨by decide +kernel, by decide⟩ trivial
      (.space (by decide) .nil)
  have hblock : Block "<svg><g/></svg>" :=
    ⟨⟨⟨.faithful, [.element { name := "svg" } [.element { name := "g", selfClosing := true } []]]⟩,
      by cbv⟩, by decide +kernel, by decide +kernel⟩
  have hafter : Filler " <!DOCTYPE a [<!ELEMENT b>]><!-- c -->".toList :=
    .space (by decide) (.aside (t := .doctype "DOCTYPE a [<!ELEMENT b>]".toList) rfl
      ⟨by decide +kernel, by decide⟩ ⟨'a', by decide +kernel, by decide⟩
      (.aside (t := .comment " c ".toList) rfl ⟨by decide +kernel, by decide⟩ trivial .nil))
  obtain ⟨root, hleft, hright, _⟩ := @resolve_surrounded _
    [("<svg><g/></svg>", " <!DOCTYPE a [<!ELEMENT b>]><!-- c -->")] hbefore
    (List.forall_mem_singleton.2 ⟨hblock, hafter⟩) ⟨true, false⟩
  exact ⟨hbefore, hblock, hafter, root, hleft, by simpa using hright⟩

end SoleRoot

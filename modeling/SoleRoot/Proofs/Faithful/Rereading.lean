import SoleRoot.Proofs.Faithful.Spelled

/-!
# Reading What Was Written

When reading the text of a tree gives the tree back.

Reading undoes writing if every event of the tree is read again and no two texts
are side by side: the events are then the tokens of the text, the tags among
them match since they come from a tree, and a tree is determined by its events.
`read_writeAll` is this result. Its converse is `rereads_of_read`: where reading
undoes writing, every event is read again. The difficulty there is that tokens
of the text might be dropped while others are written longer, so that the
lengths agree by chance. But what is written for a tag differs from the tag in
quotes only, and everything that is dropped has an angle bracket.

## Main definitions

* `apart`, `apartAll`: Whether no texts are side by side, at any level.

## Theorems

* `separate_of_apartAll`: Texts apart in a tree are apart in its text.
* `walk_flattenAll`: The tags of a tree match.
* `read_writeAll`: Reading undoes writing.
* `rereads_of_read`: Every event is read again where it does.
-/

namespace SoleRoot

namespace Faithful

/-- Whether a node is a text. -/
def isTextNode : Node → Bool
  | .text _ => true
  | _ => false

mutual

/-- Whether no texts are side by side inside a node. -/
def apart : Node → Prop
  | .element _ children => apartAll children
  | _ => True

/-- Whether no texts are side by side among some nodes and inside them. -/
def apartAll : List Node → Prop
  | [] => True
  | n :: ns =>
    apart n ∧ (isTextNode n = true → ∀ m ∈ ns.head?, isTextNode m = false) ∧ apartAll ns

end

/-- Events of which no two texts are side by side. -/
def EventsApart (es : List Event) : Prop :=
  es.IsChain fun a b => a.token.isText = true → b.token.isText = false

/-- The first and the last event of a node are texts only if the node is one. -/
theorem isText_ends_flatten (n : Node) :
    (∀ e ∈ (flatten n).head?, e.token.isText = isTextNode n) ∧
      ∀ e ∈ (flatten n).getLast?, e.token.isText = isTextNode n := by
  cases n with
  | element tag children =>
      by_cases h : (tag.selfClosing && children.isEmpty) = true
      · rw [flatten, if_pos h]
        exact ⟨fun e he => by rw [← Option.some.inj he]; rfl,
          fun e he => by rw [← Option.some.inj he]; rfl⟩
      · rw [flatten, if_neg h, ← List.cons_append, List.getLast?_concat]
        exact ⟨fun e he => by rw [← Option.some.inj he]; rfl,
          fun e he => by rw [← Option.some.inj he]; rfl⟩
  | text content | comment content | cdata content =>
      rw [flatten]
      exact ⟨fun e he => by rw [← Option.some.inj he]; rfl,
        fun e he => by rw [← Option.some.inj he]; rfl⟩

theorem head?_flattenAll (n : Node) (ns : List Node) :
    (flattenAll (n :: ns)).head? = (flatten n).head? := by
  rcases exists_head_flatten n with ⟨e, es, hflatten, _⟩
  rw [flattenAll_cons, hflatten]
  rfl

mutual

theorem eventsApart_flatten (n : Node) (h : apart n) : EventsApart (flatten n) := by
  match n with
  | .element tag children =>
      rw [apart] at h
      by_cases hsingle : (tag.selfClosing && children.isEmpty) = true
      · rw [flatten, if_pos hsingle]
        exact List.isChain_singleton _
      · rw [flatten, if_neg hsingle]
        -- Neither tag is a text, so only the children count.
        refine List.isChain_cons.2 ⟨fun e _ hstart => Bool.noConfusion hstart, ?_⟩
        refine List.isChain_append.2
          ⟨eventsApart_flattenAll children h, List.isChain_singleton _, ?_⟩
        intro e _ stop hstop _
        rw [← Option.some.inj hstop]
        rfl
  | .text _ | .comment _ | .cdata _ =>
      rw [flatten]
      exact List.isChain_singleton _

theorem eventsApart_flattenAll (ns : List Node) (h : apartAll ns) :
    EventsApart (flattenAll ns) := by
  match ns with
  | [] =>
      rw [flattenAll]
      exact List.isChain_nil
  | n :: ns =>
      rw [apartAll] at h
      rcases h with ⟨hn, hnext, hns⟩
      rw [flattenAll_cons]
      refine List.isChain_append.2
        ⟨eventsApart_flatten n hn, eventsApart_flattenAll ns hns, ?_⟩
      -- Where two nodes meet, the events are texts only if the nodes are.
      intro e he f hf htext
      rw [(isText_ends_flatten n).2 e he] at htext
      cases ns with
      | nil => simp at hf
      | cons m ms =>
          rw [head?_flattenAll] at hf
          rw [(isText_ends_flatten m).1 f hf]
          exact hnext htext m rfl

end

/-- Texts apart in a tree are apart in its text. -/
theorem separate_of_apartAll {ns : List Node} (h : apartAll ns) :
    Separate ((flattenAll ns).map Event.token) :=
  (List.isChain_map Event.token).2 (eventsApart_flattenAll ns h)

namespace Event.Rereads

theorem walk_start {tag : Tag} (h : (Event.start tag).Rereads) (names : List String) :
    (Event.start tag).token.walk names = some (tag.name :: names) := by
  have hname := congrArg Tag.name (Event.start.inj (Option.some.inj h.ownEvent))
  rw [← hname]
  rfl

theorem walk_stop {name : String} {space : Option String} (h : (Event.stop name space).Rereads)
    (names : List String) : (Event.stop name space).token.walk (name :: names) = some names := by
  have hname := (Event.stop.inj (Option.some.inj h.ownEvent)).1
  exact if_pos hname.symm

end Event.Rereads

mutual

theorem walk_flatten (n : Node) (h : ∀ e ∈ flatten n, e.Rereads) (names : List String) :
    ((flatten n).map Event.token).foldlM Token.walk names = some names := by
  match n with
  | .element tag children =>
      by_cases hsingle : (tag.selfClosing && children.isEmpty) = true
      · rw [flatten, if_pos hsingle]
        rfl
      · rw [flatten, if_neg hsingle] at h ⊢
        have hstart := (h _ List.mem_cons_self).walk_start names
        have hchildren := walk_flattenAll children (fun e he => h e
          (List.mem_cons_of_mem _ (List.mem_append_left _ he))) (tag.name :: names)
        have hstop := (h _ (List.mem_cons_of_mem _ (List.mem_append_right _
          List.mem_cons_self))).walk_stop names
        -- The start puts the name on the stack, the children leave it there, and
        -- the stop takes it away again.
        rw [List.map_cons, List.foldlM_cons, hstart]
        change ((flattenAll children ++ [Event.stop tag.name tag.endTrailing]).map
          Event.token).foldlM Token.walk (tag.name :: names) = _
        rw [List.map_append, List.foldlM_append, hchildren]
        change (Event.stop tag.name tag.endTrailing).token.walk (tag.name :: names) >>= pure = _
        rw [hstop]
        rfl
  | .text _ | .comment _ | .cdata _ =>
      rw [flatten]
      rfl

/-- The tags of a tree match. -/
theorem walk_flattenAll (ns : List Node) (h : ∀ e ∈ flattenAll ns, e.Rereads)
    (names : List String) :
    ((flattenAll ns).map Event.token).foldlM Token.walk names = some names := by
  match ns with
  | [] =>
      rw [flattenAll]
      rfl
  | n :: ns =>
      rw [flattenAll_cons] at h ⊢
      rw [List.map_append, List.foldlM_append,
        walk_flatten n (fun e he => h e (List.mem_append_left _ he)) names]
      exact walk_flattenAll ns (fun e he => h e (List.mem_append_right _ he)) names

end

/-- Reading undoes writing. -/
theorem read_writeAll {nodes : List Node} (h : ∀ e ∈ flattenAll nodes, e.Rereads)
    (hapart : apartAll nodes) (hmark : (writeAll nodes).head? ≠ some '\uFEFF') :
    read (writeAll nodes) = .ok nodes := by
  -- The tokens of the text are those that the events are written as.
  have hcut : cut (writeAll nodes) = ⟨(flattenAll nodes).map Event.token, none⟩ := by
    have hwrite : writeAll nodes = ((flattenAll nodes).map Event.token).flatMap Token.raw := by
      rw [writeAll_eq, List.flatMap_map]
      rfl
    rw [hwrite]
    refine cut_flatMap_raw (fun t ht => ?_) (separate_of_apartAll hapart)
    rcases List.mem_map.1 ht with ⟨e, he, rfl⟩
    exact (h e he).whole
  rw [read_eq_ok_iff_of_unmarked hmark, hcut]
  refine ⟨⟨rfl, fun t ht => ?_, walk_flattenAll nodes h []⟩, ?_⟩
  · rcases List.mem_map.1 ht with ⟨e, he, rfl⟩
    exact (h e he).valid
  · calc flattenAll nodes
        = (flattenAll nodes).filterMap some := List.filterMap_some.symm
      _ = (flattenAll nodes).filterMap (Token.ownEvent? ∘ Event.token) :=
        List.filterMap_congr fun e he => (h e he).ownEvent.symm
      _ = ((flattenAll nodes).map Event.token).filterMap Token.ownEvent? :=
        List.filterMap_map.symm

section Converse

theorem count_angle_respell (cs : List Char) : (respell cs).count '<' = cs.count '<' := by
  have hangle : (Quote.ofChar? '<').isNone = true := rfl
  rw [← List.count_filter (p := fun c => (Quote.ofChar? c).isNone) hangle, filter_respell,
    List.count_filter (p := fun c => (Quote.ofChar? c).isNone) hangle]

theorem count_angle_space {cs : List Char} (h : ∀ c ∈ cs, Text.isBlank c = true) :
    cs.count '<' = 0 :=
  List.count_eq_zero_of_not_mem fun hmem => absurd (h '<' hmem) (by decide)

theorem count_angle_endName (content : List Char) :
    (endName content).count '<' = content.count '<' := by
  unfold endName
  split
  · rfl
  · have hcount := congrArg (List.count '<')
      (Text.trimEnd_append_trailing Text.isXmlSpace content)
    rw [List.count_append, count_angle_space (fun c hc =>
      Text.isBlank_of_isXmlSpace (Text.of_mem_trailing c hc))] at hcount
    exact hcount

/-- What is written for a token has the same angle brackets. -/
theorem count_angle_respelled (t : Token) : t.respelled.raw.count '<' = t.raw.count '<' := by
  cases t with
  | startTag content | selfClosingTag content =>
      have hcontent := congrArg (List.count '<') (tagName_append_tagRest content)
      rw [List.count_append] at hcontent
      simp only [Token.respelled, Token.raw, List.cons_append, List.count_cons, List.count_append,
        count_angle_respell]
      omega
  | endTag content =>
      simp only [Token.respelled, Token.raw, List.cons_append, List.count_cons, List.count_append,
        count_angle_endName, count_angle_space fun c hc => Text.of_mem_trailing c hc, Nat.add_zero]
  | _ => rfl

/-- Every token that is dropped takes an angle bracket with it. -/
theorem count_angle_filter_isKept (ts : List Token) :
    ((ts.filter Token.isKept).flatMap (Token.raw ∘ Token.respelled)).count '<' +
      (ts.filter (!Token.isKept ·)).length ≤ (ts.flatMap Token.raw).count '<' := by
  induction ts with
  | nil => exact le_rfl
  | cons t ts ih =>
      by_cases hkept : t.isKept = true
      · rw [List.filter_cons_of_pos hkept, List.filter_cons_of_neg (by simp [hkept]),
          List.flatMap_cons, List.flatMap_cons, List.count_append, List.count_append,
          Function.comp_apply, count_angle_respelled]
        omega
      · -- This one is missing from the left side and counted there instead.
        have hraw : 0 < t.raw.count '<' := by
          refine List.count_pos_iff.2 ?_
          cases t with
          | doctype content | instruction content => exact List.mem_cons_self
          | _ => exact absurd rfl hkept
        rw [List.filter_cons_of_neg hkept, List.filter_cons_of_pos (by simp [hkept]),
          List.flatMap_cons, List.count_append, List.length_cons]
        omega

/-- Where reading undoes writing, every event is read again. -/
theorem rereads_of_read {nodes : List Node} (hmark : (writeAll nodes).head? ≠ some '\uFEFF')
    (h : read (writeAll nodes) = .ok nodes) : ∀ e ∈ flattenAll nodes, e.Rereads := by
  rcases (read_eq_ok_iff_of_unmarked hmark).1 h with ⟨hacceptable, hflatten⟩
  have hraw := raw_cut hacceptable.terminated
  have hwrite := writeAll_eq_respelled hflatten
  -- Nothing was dropped, since the angle brackets would be missing.
  have hkept : (cut (writeAll nodes)).tokens.filter Token.isKept =
      (cut (writeAll nodes)).tokens := by
    have hcount := count_angle_filter_isKept (cut (writeAll nodes)).tokens
    rw [← hwrite, hraw] at hcount
    have hnone : (cut (writeAll nodes)).tokens.filter (!Token.isKept ·) = [] :=
      List.length_eq_zero_iff.1 (by omega)
    rw [List.filter_eq_self]
    intro t ht
    have hnot := List.filter_eq_nil_iff.1 hnone t ht
    simpa using hnot
  rw [hkept] at hwrite
  -- So the text comes back whole, and with it every token.
  have hrespelled := flatMap_respelled_eq_iff.1 (hwrite.symm.trans hraw.symm)
  intro e he
  rw [hflatten] at he
  rcases List.mem_filterMap.1 he with ⟨t, ht, hevent⟩
  exact rereads_of_respelled (whole_of_mem_cut t ht) (hacceptable.valid t ht) hevent
    (hrespelled t ht)

end Converse

end Faithful

end SoleRoot

import SoleRoot.Proofs.Faithful.Blame
import SoleRoot.Proofs.Faithful.Joining

/-!
# Behind a Byte Order Mark

What a byte order mark at the start of a text changes.

The mark is not part of the markup, and the tokens are the same with it and
without it. So the same texts are accepted, and a text that is refused is refused
for the same reason. The offsets are the same, too, since the mark is not counted,
but they are resolved against the text with the mark. Two things suffer from
this.

A location is found too early. It is never the location of the place that is
meant, whatever the text.

The text of an end tag is looked up three bytes too early. What stands there looks
like an end tag only behind an end tag with an empty name, so the blank characters
before the closing bracket are lost. Everything else in the tree is the same, and
the trees are equal exactly if there was nothing to lose.

## Main definitions

* `unspaced`, `unspacedAll`: Trees without the white space of their end tags.

## Theorems

* `flattenAll_unspacedAll`: The same for events.
* `eventsFrom_eq_iff`: When every end tag has the white space it is written with.
* `endSpace_slice_mark`: What is found three bytes too early.
* `parse_mark`: What a byte order mark changes.
-/

namespace SoleRoot

namespace Faithful

/-- An event without the white space of an end tag. -/
def Event.unspaced : Event → Event
  | stop name _ => stop name none
  | single tag => single { tag with endTrailing := none }
  | e => e

mutual

/-- A node without the white space of its end tags. -/
def unspaced : Node → Node
  | .element tag children => .element { tag with endTrailing := none } (unspacedAll children)
  | n => n

/-- Nodes without the white space of their end tags. -/
def unspacedAll : List Node → List Node
  | [] => []
  | n :: ns => unspaced n :: unspacedAll ns

end

theorem isEmpty_unspacedAll (ns : List Node) : (unspacedAll ns).isEmpty = ns.isEmpty := by
  cases ns with
  | nil => rw [unspacedAll]
  | cons n ns =>
      rw [unspacedAll]
      rfl

mutual

theorem flatten_unspaced (n : Node) : flatten (unspaced n) = (flatten n).map Event.unspaced := by
  match n with
  | .element tag children =>
      rw [unspaced]
      -- Whether an element closes itself does not depend on its white space.
      by_cases h : (tag.selfClosing && children.isEmpty) = true
      · rw [flatten, isEmpty_unspacedAll, if_pos h, flatten, if_pos h]
        rfl
      · rw [flatten, isEmpty_unspacedAll, if_neg h, flatten, if_neg h,
          flattenAll_unspacedAll children]
        simp [Event.unspaced]
  | .text content => simp [unspaced, flatten, Event.unspaced]
  | .comment content => simp [unspaced, flatten, Event.unspaced]
  | .cdata content => simp [unspaced, flatten, Event.unspaced]

/-- Taking the white space away from a tree is taking it away from the events. -/
theorem flattenAll_unspacedAll (ns : List Node) :
    flattenAll (unspacedAll ns) = (flattenAll ns).map Event.unspaced := by
  match ns with
  | [] =>
      rw [unspacedAll, flattenAll_nil]
      rfl
  | n :: ns =>
      rw [unspacedAll, flattenAll_cons, flattenAll_cons, List.map_append, flatten_unspaced n,
        flattenAll_unspacedAll ns]

end

/-- What is found at the place of a token shows in the white space only. -/
theorem map_unspaced_event? (found found' : Option (List Char)) (t : Token) :
    (t.event? found).map Event.unspaced = (t.event? found').map Event.unspaced := by
  cases t with
  | _ => rfl

theorem map_unspaced_eventsFrom (source source' : List Char) (offset : Nat) (ts : List Token) :
    (eventsFrom source offset ts).map Event.unspaced =
      (eventsFrom source' offset ts).map Event.unspaced := by
  induction ts generalizing offset with
  | nil => rfl
  | cons t ts ih =>
      rw [eventsFrom, eventsFrom, List.map_append, List.map_append, ih, ← Option.toList_map,
        ← Option.toList_map, map_unspaced_event?]

theorem event?_eq_ownEvent?_iff {found : Option (List Char)} {t : Token} :
    t.event? found = t.ownEvent? ↔ ∀ content, t = .endTag content →
      endSpace found = unusual? [] (Text.trailing Text.isBlank content) := by
  cases t with
  | endTag content =>
      simp [Token.ownEvent?, Token.event?, endSpace_raw]
  | _ => simp [Token.ownEvent?, Token.event?]

/-- The tokens have their own events exactly if each of them has. -/
theorem eventsFrom_cons_iff {source : List Char} {offset : Nat} {t : Token} {ts : List Token} :
    eventsFrom source offset (t :: ts) = (t :: ts).filterMap Token.ownEvent? ↔
      t.event? (Text.slice? offset (offset + Text.byteSize t.raw) source) = t.ownEvent? ∧
        eventsFrom source (offset + Text.byteSize t.raw) ts =
          ts.filterMap Token.ownEvent? := by
  rw [eventsFrom, List.filterMap_cons]
  -- Whether a token has an event is not a matter of what is found.
  cases t with
  | doctype content | instruction content => simp [Token.ownEvent?, Token.event?]
  | _ => simp [Token.ownEvent?, Token.event?]

/-- Every end tag has the white space it is written with exactly if that is what
    is found in the source at its place. -/
theorem eventsFrom_eq_iff {source : List Char} {offset : Nat} {ts : List Token} :
    eventsFrom source offset ts = ts.filterMap Token.ownEvent? ↔
      ∀ before content after, ts = before ++ .endTag content :: after →
        endSpace (Text.slice? (offset + Text.byteSize (before.flatMap Token.raw))
          (offset + Text.byteSize (before.flatMap Token.raw) +
            Text.byteSize (Token.endTag content).raw) source) =
          unusual? [] (Text.trailing Text.isBlank content) := by
  induction ts generalizing offset with
  | nil => simp [eventsFrom]
  | cons t ts ih =>
      rw [eventsFrom_cons_iff, event?_eq_ownEvent?_iff, ih]
      -- The place of a later tag is counted from the place behind the first token.
      constructor
      · rintro ⟨hfirst, hrest⟩ before content after hsplit
        cases before with
        | nil =>
            rcases List.cons.inj hsplit with ⟨rfl, _⟩
            exact hfirst content rfl
        | cons u before =>
            rcases List.cons.inj hsplit with ⟨rfl, hts⟩
            rw [List.flatMap_cons, Text.byteSize_append, ← Nat.add_assoc]
            exact hrest before content after hts
      · intro h
        constructor
        · rintro content rfl
          exact h [] content ts rfl
        · rintro before content after rfl
          have hlater := h (t :: before) content after rfl
          rwa [List.flatMap_cons, Text.byteSize_append, ← Nat.add_assoc] at hlater

theorem Token.getLast?_raw {t : Token} (h : t.isText = false) : t.raw.getLast? = some '>' := by
  cases t with
  | text content => exact Bool.noConfusion h
  | _ => simp [Token.raw, List.getLast?_cons]

/-- If the text of tokens ends with the beginning of an end tag, then this is
    a whole one, whose name is empty. -/
theorem eq_of_flatMap_raw {ts : List Token} (hwhole : ∀ t ∈ ts, t.Whole) (hsep : Separate ts)
    {x : List Char} {c : Char} (h : ts.flatMap Token.raw = x ++ ['<', '/', c]) : c = '>' := by
  rcases List.eq_nil_or_concat ts with rfl | ⟨init, t, rfl⟩
  · simp at h
  rw [List.concat_eq_append] at h hwhole hsep
  rw [List.flatMap_append, List.flatMap_singleton] at h
  cases htext : t.isText with
  | false =>
      have hlast := congrArg List.getLast? h
      rw [List.getLast?_append, t.getLast?_raw htext] at hlast
      simpa using hlast.symm
  | true =>
      cases t with
      | text content =>
          have hangle := not_mem_of_whole_text (hwhole (.text content) (by simp))
          have hne : content ≠ [] := (hwhole (.text content) (by simp)).raw_ne_nil
          -- A text run stands behind a construct, which ends with a bracket.
          have hinit : ∀ d ∈ (init.flatMap Token.raw).getLast?, d = '>' := by
            intro d hd
            rcases List.eq_nil_or_concat init with rfl | ⟨start, u, rfl⟩
            · simp at hd
            · rw [List.concat_eq_append] at hd hsep
              have hu : u.isText = false := by
                cases hu : u.isText with
                | false => rfl
                | true =>
                    have hno := (List.isChain_append.1 hsep).2.2 u (by simp) (.text content) rfl hu
                    exact Bool.noConfusion (htext.symm.trans hno)
              rw [List.flatMap_append, List.flatMap_singleton, List.getLast?_append,
                u.getLast?_raw hu] at hd
              exact (Option.some.inj hd).symm
          change init.flatMap Token.raw ++ content = _ at h
          -- The text run has no bracket of its own, so at most two characters of the
          -- three are in it, and the one before it is no bracket that ends a construct.
          rcases List.append_eq_append_iff.1 h with ⟨z, _, hcontent⟩ | ⟨z, hx, hcontent⟩
          · exact absurd (by simp [hcontent]) hangle
          · rw [hx] at hinit
            rcases z with _ | ⟨d, _ | ⟨e, _ | ⟨f, z⟩⟩⟩
            · rw [List.nil_append] at hcontent
              exact absurd (hcontent ▸ List.mem_cons_self) hangle
            · have hd := hinit d (by simp)
              simp [hd] at hcontent
            · have he := hinit e (by simp)
              simp [he] at hcontent
            · simp only [List.cons_append, List.cons.injEq, List.nil_eq_append_iff] at hcontent
              exact absurd hcontent.2.2.2.2 hne
      | _ => exact Bool.noConfusion htext

/-- What starts like an end tag and takes three bytes. -/
theorem eq_of_byteSize_three {z after y inner : List Char} {c : Char} (hsize : Text.byteSize z = 3)
    (h : '<' :: '/' :: c :: (inner ++ y) = z ++ after) : z = ['<', '/', c] := by
  -- Two of the three bytes are the bracket and the slash, so the third is a character.
  have hangle : Char.utf8Size '<' = 1 := by decide
  have hslash : Char.utf8Size '/' = 1 := by decide
  rcases z with _ | ⟨d, _ | ⟨e, _ | ⟨f, z⟩⟩⟩
  · simp at hsize
  · simp only [List.cons_append, List.cons.injEq] at h
    simp [← h.1, hangle] at hsize
  · simp only [List.cons_append, List.cons.injEq] at h
    simp [← h.1, ← h.2.1, hangle, hslash] at hsize
  · simp only [List.cons_append, List.cons.injEq] at h
    rcases h with ⟨rfl, rfl, rfl, _⟩
    have hc := c.utf8Size_pos
    simp only [Text.byteSize_cons, hangle, hslash] at hsize
    have hz : Text.byteSize z = 0 := by omega
    rw [Text.eq_nil_of_byteSize hz]

/-- Three bytes before an end tag, only an end tag with an empty name looks like
    one. -/
theorem endSpace_slice_mark {before after : List Char} {stop : Nat}
    (h : ∀ x c, before ≠ x ++ ['<', '/', c]) :
    endSpace (Text.slice? (Text.byteSize before) stop ('\uFEFF' :: (before ++ after))) = none := by
  cases hslice : Text.slice? (Text.byteSize before) stop ('\uFEFF' :: (before ++ after)) with
  | none => rfl
  | some found =>
      rcases Text.exists_of_slice? hslice with ⟨x, y, hsplit, hsize⟩
      cases hstrip : Text.strip? ['<', '/'] found with
      | none => simp [endSpace, hstrip]
      | some inner =>
          cases inner with
          | nil => simp [endSpace, hstrip]
          | cons c inner =>
              -- What was found starts with the last three bytes before the end tag.
              exfalso
              have hmark : Char.utf8Size '\uFEFF' = 3 := by decide
              rw [Text.strip?_eq_some_iff.1 hstrip] at hsplit
              rw [← List.cons_append, List.append_eq_append_iff] at hsplit
              rcases hsplit with ⟨z, hx, _⟩ | ⟨z, hx, hfound⟩
              · have hlarger := congrArg Text.byteSize hx
                simp only [Text.byteSize_append, Text.byteSize_cons] at hlarger
                omega
              · have hthree : Text.byteSize z = 3 := by
                  have hsum := congrArg Text.byteSize hx
                  simp only [Text.byteSize_append, Text.byteSize_cons] at hsum
                  omega
                rw [eq_of_byteSize_three hthree hfound] at hx
                cases x with
                | nil => simp at hx
                | cons d x => exact h x c (List.cons.inj hx).2

/-- If no end tag has an empty name, then no white space of an end tag is found. -/
theorem endSpace_mark_of_named {source : List Char} (hnamed : ¬ ['<', '/', '>'] <:+: source)
    {before after : List Token} (hsplit : (cut source).tokens = before ++ after) (stop : Nat) :
    endSpace (Text.slice? (Text.byteSize (before.flatMap Token.raw)) stop ('\uFEFF' :: source)) =
      none := by
  rcases exists_raw_cut source with ⟨rest, hsource⟩
  rw [hsplit, List.flatMap_append, List.append_assoc] at hsource
  have hwhole : ∀ t ∈ before, t.Whole := fun t ht =>
    whole_of_mem_cut t (hsplit ▸ List.mem_append_left after ht)
  have hsep : Separate before := (List.isChain_append.1 (hsplit ▸ separate_cut source)).1
  rw [hsource]
  -- An end tag with an empty name is the only one that would be found.
  refine endSpace_slice_mark fun x c hx => hnamed ?_
  rw [eq_of_flatMap_raw hwhole hsep hx] at hx
  rw [hsource, hx]
  exact ⟨x, _, rfl⟩

/-- What is read behind a byte order mark has the white space of an end tag
    exactly where it is found there. -/
theorem read_mark_eq_iff {source : List Char} (hmark : source.head? ≠ some '\uFEFF')
    {ns ms : List Node} (hns : read source = .ok ns) (hms : read ('\uFEFF' :: source) = .ok ms) :
    unspacedAll ms = unspacedAll ns ∧
      (ms = ns ↔ ∀ before content after, (cut source).tokens = before ++ .endTag content :: after →
        endSpace (Text.slice? (Text.byteSize (before.flatMap Token.raw))
          (Text.byteSize (before.flatMap Token.raw) + Text.byteSize (Token.endTag content).raw)
          ('\uFEFF' :: source)) = unusual? [] (Text.trailing Text.isBlank content)) := by
  rcases (read_eq_ok_iff_of_unmarked hmark).1 hns with ⟨_, hevents⟩
  rcases read_eq_ok_iff.1 hms with ⟨_, hmarked⟩
  change flattenAll ms = eventsFrom ('\uFEFF' :: source) 0 (cut source).tokens at hmarked
  constructor
  -- Trees are alike if their events are.
  · refine flattenAll_injective ?_
    rcases read_eq_ok_iff.1 hns with ⟨_, hplain⟩
    rw [Text.dropMark_of_unmarked hmark] at hplain
    rw [flattenAll_unspacedAll, flattenAll_unspacedAll, hmarked, hplain,
      map_unspaced_eventsFrom _ source]
  · have hiff := @eventsFrom_eq_iff ('\uFEFF' :: source) 0 (cut source).tokens
    simp only [Nat.zero_add] at hiff
    rw [← hiff, ← hmarked, ← hevents]
    exact ⟨congrArg flattenAll, flattenAll_injective⟩

end Faithful

open Faithful

/-- What a byte order mark changes. A text is accepted with it exactly if it is
    without. The nodes are the same but for the white space of the end tags, which
    is looked for at the wrong place: if no end tag has an empty name, then none
    of it is found. A text that is refused is refused for the same reason, at
    a wrong location. -/
theorem parse_mark {source : String} (hmark : source.toList.head? ≠ some '\uFEFF') :
    ((∃ d, Document.parse .faithful ("\uFEFF" ++ source) = .ok d) ↔
      ∃ d, Document.parse .faithful source = .ok d) ∧
    (∀ d e, Document.parse .faithful source = .ok d →
      Document.parse .faithful ("\uFEFF" ++ source) = .ok e →
      e.mode = d.mode ∧ unspacedAll e.nodes = unspacedAll d.nodes ∧
        (e = d ↔ ∀ before content after,
          (cut source.toList).tokens = before ++ .endTag content :: after →
            endSpace (Text.slice? (Text.byteSize (before.flatMap Token.raw))
              (Text.byteSize (before.flatMap Token.raw) +
                Text.byteSize (Token.endTag content).raw) ('\uFEFF' :: source.toList)) =
              unusual? [] (Text.trailing Text.isBlank content)) ∧
        (¬ ['<', '/', '>'] <:+: source.toList → (e = d ↔ ∀ content,
          .endTag content ∈ (cut source.toList).tokens →
            Text.trailing Text.isBlank content = []))) ∧
    (∀ m n, Document.parse .faithful source = .error m →
      Document.parse .faithful ("\uFEFF" ++ source) = .error n →
      n.detail = m.detail ∧ n.location ≠ m.location.marked ∧
        ∃ before after, source.toList = before ++ after ∧ m.location = Location.behind before ∧
          n.location =
            Location.ofOffset ('\uFEFF' :: source.toList) (Text.byteSize before)) := by
  have htoList : ("\uFEFF" ++ source).toList = '\uFEFF' :: source.toList := by
    rw [String.toList_append]
    rfl
  have hdrop : Text.dropMark ("\uFEFF" ++ source).toList = Text.dropMark source.toList := by
    rw [htoList, Text.dropMark_of_unmarked hmark]
    rfl
  refine ⟨?_, fun d e hd he => ?_, fun m n hm hn => ?_⟩
  · rw [(parse_faithful_eq_ok_iff _).1, (parse_faithful_eq_ok_iff _).1, hdrop]
  · rcases parse_eq_ok_iff_read.1 hd with ⟨hdmode, hdread⟩
    rcases parse_eq_ok_iff_read.1 he with ⟨hemode, heread⟩
    rw [htoList] at heread
    rcases read_mark_eq_iff hmark hdread heread with ⟨hsame, hexact⟩
    have hnodes : e = d ↔ e.nodes = d.nodes := by
      rcases d with ⟨mode, nodes⟩
      rcases e with ⟨mode', nodes'⟩
      simp_all
    refine ⟨hemode.trans hdmode.symm, hsame, hnodes.trans hexact, fun hnamed => ?_⟩
    rw [hnodes, hexact]
    -- If nothing is found, then nothing may have been there.
    have hlost : ∀ content, none = unusual? [] (Text.trailing Text.isBlank content) ↔
        Text.trailing Text.isBlank content = [] := by simp [unusual?]
    constructor
    · intro h content hmem
      rcases List.append_of_mem hmem with ⟨before, after, hsplit⟩
      rw [← hlost, ← h before content after hsplit, endSpace_mark_of_named hnamed hsplit]
    · intro h before content after hsplit
      rw [endSpace_mark_of_named hnamed hsplit, hlost]
      exact h content (by simp [hsplit])
  · rcases exists_of_parse_error hmark hm with
      ⟨f, before, after, hread, hsource, hoffset, hdetail, hlocation⟩
    rcases parse_eq_error_iff_read.1 hn with ⟨f', hread', rfl⟩
    have hsame := read_congr hdrop
    rw [hread, hread'] at hsame
    rcases Except.error.inj hsame with rfl
    -- The offset does not count the mark, but the text has it.
    have hfound : (f'.toMalformed ("\uFEFF" ++ source).toList).location =
        Location.ofOffset ('\uFEFF' :: source.toList) (Text.byteSize before) := by
      rw [← hoffset, htoList]
      rfl
    refine ⟨hdetail.symm, ?_, before, after, hsource, hlocation, hfound⟩
    rw [hfound, hlocation, hsource]
    exact Location.ofOffset_mark_ne before after

/-- A text whose only end tag has a space, and what is lost of it. -/
theorem parse_mark_spaced :
    "<a></a >".toList.head? ≠ some '\uFEFF' ∧
      ∃ d e, Document.parse .faithful "<a></a >" = .ok d ∧
        Document.parse .faithful ("\uFEFF" ++ "<a></a >") = .ok e ∧
        unspacedAll e.nodes = unspacedAll d.nodes ∧ e ≠ d := by
  have hmark : "<a></a >".toList.head? ≠ some '\uFEFF' := by decide
  have hparse : Document.parse .faithful "<a></a >" =
      .ok ⟨.faithful, [.element { name := "a", endTrailing := some " " } []]⟩ := by cbv
  obtain ⟨haccepted, hsame, _⟩ := parse_mark hmark
  obtain ⟨e, he⟩ := haccepted.2 ⟨_, hparse⟩
  obtain ⟨_, hnodes, _, hiff⟩ := hsame _ e hparse he
  refine ⟨hmark, _, e, hparse, he, hnodes, fun heq => ?_⟩
  have hspace := (hiff (by decide +kernel)).1 heq ['a', ' '] (by decide +kernel)
  exact absurd hspace (by decide +kernel)

/-- The space is not written any more. -/
theorem parse_mark_ne :
    ∃ d e, Document.parse .faithful "<a></a >" = .ok d ∧
      Document.parse .faithful ("\uFEFF" ++ "<a></a >") = .ok e ∧ e ≠ d ∧
        d.serialize = "<a></a >" ∧ e.serialize = "<a></a>" := by
  have hplain : Document.parse .faithful "<a></a >" =
      .ok ⟨.faithful, [.element { name := "a", endTrailing := some " " } []]⟩ := by cbv
  have hmarked : Document.parse .faithful ("\uFEFF" ++ "<a></a >") =
      .ok ⟨.faithful, [.element { name := "a" } []]⟩ := by cbv
  exact ⟨_, _, hplain, hmarked, by simp, by cbv, by cbv⟩

end SoleRoot

import Mathlib.Data.List.Infix
import SoleRoot.Consolidation
import SoleRoot.Proofs.Faithful.Acceptance

/-!
# What a Root Leaves Out

Which nodes of a text are lost when it is brought under one root.

A root holds what it was made of: itself, if an element of the text is the root, and
its children, if it is a container. `Divides` says that the nodes of the text are what
the root holds and what it discards, each in the order of the text, so that no node is
held twice or in another place.

Comments are discarded, and so are blank texts, and which texts are blank depends on the
idea of white space. Here it is the Unicode property `White_Space`, which has more
characters than the white space of HTML. A no-break space between two elements is one
of them. `dropsOnly_iff` says of any idea of white space when nothing else is
discarded, and so for which documents the white space of HTML is all that is lost.

In the faithful dialect a text is kept as it stands in the source, so a source without
other blank characters loses none. In the permissive dialect references are decoded,
and a text may have characters that its source has not.

## Main definitions

* `ResolvedRoot.held`: What a root was made of.
* `Divides`: A list divided into two, each in its order.
* `Node.Spare`: A comment, or a text of white space of some kind.
* `Document.DropsOnly`: Nothing else is discarded.

## Theorems

* `Document.divides_consolidate`: The nodes of a document, divided.
* `Document.dropsOnly_iff`: When nothing but white space of some kind is discarded.
* `Faithful.infix_of_read`: A faithful text stands in its source.
* `parse_dropsOnly`: What is discarded in either dialect.
* `not_dropsOnly`: More is lost than the white space of HTML.
-/

namespace SoleRoot

/-- A list divided into two, each in its order. -/
inductive Divides {α : Type} : List α → List α → List α → Prop where
  | nil : Divides [] [] []
  | first {x : α} {xs ys zs : List α} (h : Divides xs ys zs) : Divides (x :: xs) (x :: ys) zs
  | second {x : α} {xs ys zs : List α} (h : Divides xs ys zs) : Divides (x :: xs) ys (x :: zs)

namespace Divides

variable {α : Type} {xs ys zs : List α}

/-- A list is divided by any condition on its members. -/
theorem filter (p : α → Bool) (xs : List α) :
    Divides xs (xs.filter p) (xs.filter (!p ·)) := by
  induction xs with
  | nil => exact nil
  | cons x xs ih =>
      cases hx : p x with
      | true =>
          rw [List.filter_cons_of_pos hx, List.filter_cons_of_neg (by simp [hx])]
          exact ih.first
      | false =>
          rw [List.filter_cons_of_neg (by simp [hx]), List.filter_cons_of_pos (by simp [hx])]
          exact ih.second

theorem perm (h : Divides xs ys zs) : xs.Perm (ys ++ zs) := by
  induction h with
  | nil => exact List.Perm.refl _
  | first _ ih => exact ih.cons _
  | second _ ih => exact (ih.cons _).trans List.perm_middle.symm

end Divides

/-- What a root was made of: itself, or the nodes that a container was put around. -/
def ResolvedRoot.held (r : ResolvedRoot) : List Node :=
  if r.synthesized then r.element.children else [r.element.toNode]

/-- A comment, or a text of white space of some kind. -/
inductive Node.Spare (isSpace : Char → Bool) : Node → Prop where
  | comment (content : String) : Spare isSpace (.comment content)
  | text (content : String) (h : ∀ c ∈ content.toList, isSpace c = true) :
    Spare isSpace (.text content)

namespace Node

/-- The content of a text. -/
def text? : Node → Option String
  | text content => some content
  | _ => none

theorem mem_filterMap_text? {ns : List Node} {content : String} :
    content ∈ ns.filterMap text? ↔ .text content ∈ ns := by
  rw [List.mem_filterMap]
  constructor
  · rintro ⟨n, hn, hcontent⟩
    cases n with
    | text found => exact Option.some.inj hcontent ▸ hn
    | _ => simp [text?] at hcontent
  · exact fun h => ⟨_, h, rfl⟩

theorem spare_text_iff {isSpace : Char → Bool} {content : String} :
    (Node.text content).Spare isSpace ↔ ∀ c ∈ content.toList, isSpace c = true := by
  constructor
  · rintro ⟨_⟩
    assumption
  · exact Spare.text content

/-- A node does not count if it is a comment or all of it is blank. -/
theorem isKept_eq_false_iff {n : Node} : n.isKept = false ↔ n.Spare Text.isBlank := by
  cases n with
  | element tag children =>
      -- An element counts, whatever it holds.
      refine ⟨fun h => ?_, fun h => ?_⟩
      · simp [isKept, isBlankText, isComment] at h
      · cases h
  | text content =>
      rw [spare_text_iff, ← List.all_eq_true]
      simp only [isKept, isBlankText, isComment, Bool.not_false, Bool.and_true,
        Bool.not_eq_false']
  | comment content =>
      refine ⟨fun _ => .comment content, fun _ => ?_⟩
      simp only [isKept, isComment, Bool.not_true, Bool.and_false]
  | cdata content =>
      refine ⟨fun h => ?_, fun h => ?_⟩
      · simp [isKept, isBlankText, isComment] at h
      · cases h

end Node

namespace Document

/-- Whether nothing is discarded but comments and white space of some kind. -/
def DropsOnly (d : Document) (isSpace : Char → Bool) : Prop :=
  ∃ dropped, Divides d.nodes d.consolidate.held dropped ∧ ∀ n ∈ dropped, n.Spare isSpace

theorem held_consolidate (d : Document) : d.consolidate.held = d.nodes.filter Node.isKept := by
  unfold consolidate
  split
  · rename_i tag children h
    exact h.symm
  · rfl

/-- The nodes of a document are those that its root holds and those that do not count. -/
theorem divides_consolidate (d : Document) :
    Divides d.nodes d.consolidate.held (d.nodes.filter (!Node.isKept ·)) := by
  rw [held_consolidate]
  exact Divides.filter Node.isKept d.nodes

theorem mem_dropped_iff {d : Document} {n : Node} :
    n ∈ d.nodes.filter (!Node.isKept ·) ↔ n ∈ d.nodes ∧ n.Spare Text.isBlank := by
  rw [List.mem_filter, Bool.not_eq_true', Node.isKept_eq_false_iff]

/-- Only white space of some kind is discarded if the blank texts have no other. -/
theorem dropsOnly_iff {d : Document} {isSpace : Char → Bool} :
    d.DropsOnly isSpace ↔ ∀ n ∈ d.nodes, n.Spare Text.isBlank → n.Spare isSpace := by
  have hdivides := d.divides_consolidate
  constructor
  · rintro ⟨dropped, hdropped, hspare⟩ n hn hblank
    -- However the nodes are divided, the same ones are left when the held ones are gone.
    have hperm := (List.perm_append_left_iff _).1 (hdivides.perm.symm.trans hdropped.perm)
    exact hspare n (hperm.mem_iff.1 (mem_dropped_iff.2 ⟨hn, hblank⟩))
  · intro h
    refine ⟨_, hdivides, fun n hn => ?_⟩
    rcases mem_dropped_iff.1 hn with ⟨hmem, hblank⟩
    exact h n hmem hblank

theorem dropsOnly_isBlank (d : Document) : d.DropsOnly Text.isBlank :=
  dropsOnly_iff.2 fun _ _ h => h

/-- What does not count is not held. -/
theorem not_mem_held {d : Document} {n : Node} (h : n.Spare Text.isBlank) :
    n ∉ d.consolidate.held := by
  rw [held_consolidate, List.mem_filter, Node.isKept_eq_false_iff.2 h]
  exact fun hmem => Bool.false_ne_true hmem.2

end Document

namespace Faithful

/-- The text of an event is that of a token. -/
theorem mem_of_text_mem_eventsFrom {source : List Char} {offset : Nat} {ts : List Token}
    {content : String} (h : Event.text content ∈ eventsFrom source offset ts) :
    Token.text content.toList ∈ ts := by
  induction ts generalizing offset with
  | nil => exact absurd h List.not_mem_nil
  | cons t ts ih =>
      rw [eventsFrom, List.mem_append] at h
      rcases h with h | h
      · cases t with
        | text cs =>
            rcases List.mem_singleton.1 h with heq
            rw [Event.text.inj heq, String.toList_ofList]
            exact List.mem_cons_self
        | _ => simp [Token.event?] at h
      · exact List.mem_cons_of_mem t (ih h)

/-- A text at the top of what is read stands in the source. -/
theorem infix_of_read {source : List Char} {nodes : List Node} (h : read source = .ok nodes)
    {content : String} (hmem : Node.text content ∈ nodes) : content.toList <:+: source := by
  rcases read_spec h with ⟨hacceptable, hevents⟩
  have hevent : Event.text content ∈ flattenAll nodes :=
    mem_flattenAll hmem (by rw [flatten]; exact List.mem_cons_self)
  rw [hevents] at hevent
  rcases List.append_of_mem (mem_of_text_mem_eventsFrom hevent) with ⟨before, after, htokens⟩
  have hraw := raw_cut hacceptable.terminated
  rw [htokens, List.flatMap_append, List.flatMap_cons] at hraw
  -- A text that is kept is a token of its own, and tokens stand in the source.
  have hinfix : content.toList <:+: Text.dropMark source :=
    ⟨before.flatMap Token.raw, after.flatMap Token.raw, by
      rw [← hraw, List.append_assoc]
      rfl⟩
  exact hinfix.trans (Text.dropMark_suffix source).isInfix

end Faithful

/-- What is discarded of a text in either dialect: comments, and texts of which every
    character is white space of Unicode. All of these are discarded, so it is only white
    space of HTML exactly if no other character makes up a blank text at the top, and
    for a faithful source it is enough that it has no other blank character. -/
theorem parse_dropsOnly (mode : Mode) (source : String) :
    (mode = .permissive → ∃ d, Document.parse mode source = .ok d) ∧
      ∀ d, Document.parse mode source = .ok d →
        d.DropsOnly Text.isBlank ∧
          (∀ n ∈ d.nodes, n.Spare Text.isBlank → n ∉ d.consolidate.held) ∧
          (d.DropsOnly Text.isHtmlSpace ↔ ∀ content, .text content ∈ d.nodes →
            (∀ c ∈ content.toList, Text.isBlank c = true) →
              ∀ c ∈ content.toList, Text.isHtmlSpace c = true) ∧
          (mode = .faithful →
            (∀ c ∈ source.toList, Text.isBlank c = true → Text.isHtmlSpace c = true) →
              d.DropsOnly Text.isHtmlSpace) := by
  have hexact (d : Document) : d.DropsOnly Text.isHtmlSpace ↔ ∀ content, .text content ∈ d.nodes →
      (∀ c ∈ content.toList, Text.isBlank c = true) →
        ∀ c ∈ content.toList, Text.isHtmlSpace c = true := by
    rw [Document.dropsOnly_iff]
    constructor
    · intro h content hmem hblank
      exact Node.spare_text_iff.1 (h _ hmem (.text content hblank))
    · rintro h n hn (⟨content⟩ | ⟨content, hblank⟩)
      · exact .comment content
      · exact .text content (h content hn hblank)
  refine ⟨?_, fun d hd => ⟨d.dropsOnly_isBlank, fun _ _ => Document.not_mem_held, hexact d, ?_⟩⟩
  · rintro rfl
    exact ⟨_, rfl⟩
  · rintro rfl hsource
    have hread := (Faithful.parse_eq_ok_iff_read.1 hd).2
    rw [hexact]
    intro content hmem hblank c hc
    exact hsource c ((Faithful.infix_of_read hread hmem).subset hc) (hblank c hc)

/-- A faithful source with a comment and white space around its elements. -/
theorem parse_dropsOnly_spaced :
    ∃ d, Document.parse .faithful " <a/>\n<!--c--><b/>" = .ok d ∧ d.DropsOnly Text.isHtmlSpace := by
  have hparse : Document.parse .faithful " <a/>\n<!--c--><b/>" =
      .ok ⟨.faithful, [.text " ", .element { name := "a", selfClosing := true } [], .text "\n",
        .comment "c", .element { name := "b", selfClosing := true } []]⟩ := by
    cbv
  have hsource : ∀ c ∈ " <a/>\n<!--c--><b/>".toList,
      Text.isBlank c = true → Text.isHtmlSpace c = true := by
    simp [Text.isBlank, Text.isHtmlSpace, Text.isXmlSpace]
  exact ⟨_, hparse, ((parse_dropsOnly .faithful _).2 _ hparse).2.2.2 rfl hsource⟩

/-- A no-break space between two elements is discarded in either dialect, and it is no
    white space of HTML. -/
theorem not_dropsOnly :
    (∃ d, Document.parse .permissive "<b>a</b>&nbsp;<b>c</b>" = .ok d ∧
        ¬ d.DropsOnly Text.isHtmlSpace) ∧
      ∃ d, Document.parse .faithful "<b>a</b>\u00a0<b>c</b>" = .ok d ∧
        ¬ d.DropsOnly Text.isHtmlSpace := by
  -- It is the only text at the top, so it is discarded.
  have hlost {d : Document} (h : d.nodes.filterMap Node.text? = ["\u00a0"]) :
      ¬ d.DropsOnly Text.isHtmlSpace := by
    intro hdrops
    have hmem : Node.text "\u00a0" ∈ d.nodes :=
      Node.mem_filterMap_text?.1 (h ▸ List.mem_singleton_self _)
    have hblank : (Node.text "\u00a0").Spare Text.isBlank := .text _ (by simp [Text.isBlank])
    have hspace := Node.spare_text_iff.1 (Document.dropsOnly_iff.1 hdrops _ hmem hblank)
    exact absurd (hspace '\u00a0' (by simp)) (by decide)
  constructor
  · have hread : (Html.read "<b>a</b>&nbsp;<b>c</b>".toList).filterMap Node.text? = ["\u00a0"] := by
      decide +kernel
    exact ⟨_, rfl, hlost hread⟩
  · have hparse : Document.parse .faithful "<b>a</b>\u00a0<b>c</b>" =
        .ok ⟨.faithful, [.element { name := "b" } [.text "a"], .text "\u00a0",
          .element { name := "b" } [.text "c"]]⟩ := by
      cbv
    exact ⟨_, hparse, hlost rfl⟩

end SoleRoot

import SoleRoot.Markup.Edit
import SoleRoot.Proofs.Faithful.Appending
import SoleRoot.Proofs.Faithful.Blame

/-!
# Reading On Behind an Accepted Text

Nothing of an accepted text is remembered when the reading goes on behind it.

A text that is accepted leaves no element open, so the reader is as it was at the
start, but for the number of bytes that it has behind it. If the text that follows
begins with a construct of its own, its tokens are the ones that it has alone. The
two runs over these tokens then differ by that number of bytes and by nothing else:
the second text is accepted behind the first if it is accepted alone, and if it is
refused, then for the same reason and at the same one of its characters.

## Theorems

* `exists_run_of_read`: The state behind an accepted text.
* `read_append_eq_error`: A fault of the second text.
* `parse_append`: Reading two texts is reading the one and then the other.
-/

namespace SoleRoot

namespace Faithful

section Behind

variable {a b : List Char} {ns : List Node}

/-- Behind an accepted text nothing is open, whatever source the end tags are looked
    up in. -/
theorem exists_run_of_read (h : read a = .ok ns) (hmark : a.head? ≠ some '\uFEFF')
    (source : List Char) :
    (cut a).failure = none ∧ ∃ g, (cut a).tokens.foldlM (Growth.step source) {} = .ok g ∧
      g.outline = Growth.outlineFrom (Text.byteSize a) {} := by
  rw [read, Text.dropMark_of_unmarked hmark] at h
  rcases bind_eq_ok_iff.1 h with ⟨g, hrun, hfinish⟩
  rcases Growth.finish_eq_ok_iff.1 hfinish with ⟨hterminated, hopened, _⟩
  have hoffset : g.offset = Text.byteSize a := by
    have hplaced := Growth.placed_empty.run hrun
    rw [hplaced.offset, List.nil_append, raw_cut hterminated]
  have hnone : g.opened = [] := List.map_eq_nil_iff.1 hopened
  have houtline : g.outline = Growth.outlineFrom (Text.byteSize a) {} := by
    simp [Growth.outline, Growth.outlineFrom, hoffset, hnone]
  -- The source matters to the end tags only, and the outline does not show them.
  have hsame : ((cut a).tokens.foldlM (Growth.step a) {}).map Growth.outline =
      ((cut a).tokens.foldlM (Growth.step source) {}).map Growth.outline :=
    Growth.run_congr rfl
  rw [hrun] at hsame
  rcases map_eq_ok_iff.1 hsame.symm with ⟨g', hrun', houtline'⟩
  exact ⟨hterminated, g', hrun', houtline'.trans houtline⟩

/-- Behind an accepted text another one is accepted or refused as it is alone. -/
theorem read_append_congr (ha : read a = .ok ns) (hamark : a.head? ≠ some '\uFEFF')
    (hbmark : b.head? ≠ some '\uFEFF') (hmeets : Meets a b) :
    (read (a ++ b)).map (fun _ => ()) =
      ((read b).mapError (Fault.moved (Text.byteSize a))).map fun _ => () := by
  rcases exists_run_of_read ha hamark (a ++ b) with ⟨hterminated, g, hrun, houtline⟩
  rw [read, read, Text.dropMark_of_unmarked (unmarked_append hamark hbmark),
    Text.dropMark_of_unmarked hbmark, cut_append hterminated hmeets, List.foldlM_append, hrun]
  -- What is left of the run starts where the first text ends.
  exact map_bind_moved (Growth.run_moved houtline) fun _ _ hview => Growth.finish_moved hview _

theorem read_append_eq_error (ha : read a = .ok ns) (hamark : a.head? ≠ some '\uFEFF')
    (hbmark : b.head? ≠ some '\uFEFF') (hmeets : Meets a b) {f : Fault}
    (hb : read b = .error f) : read (a ++ b) = .error (f.moved (Text.byteSize a)) := by
  have hsame := read_append_congr ha hamark hbmark hmeets
  rw [hb] at hsame
  cases hread : read (a ++ b) with
  | error f' =>
      rw [hread] at hsame
      exact congrArg Except.error (Except.error.inj hsame)
  | ok ms =>
      rw [hread] at hsame
      exact absurd hsame (by simp [Except.map, Except.mapError])

end Behind

end Faithful

open Faithful

/-- A text that begins with a construct, or is empty, is read behind an accepted text
    as it is read alone. Its nodes come behind those of the first text. If it is
    refused, the cause is the same, and so is the place: the location that is
    reported is behind the first text and what stands before the fault. -/
theorem parse_append {s t : String} {d : Document} (hs : Document.parse .faithful s = .ok d)
    (hmark : s.toList.head? ≠ some '\uFEFF') (ht : ∀ c ∈ t.toList.head?, c = '<') :
    ((∃ e, Document.parse .faithful (s ++ t) = .ok e) ↔
      ∃ e, Document.parse .faithful t = .ok e) ∧
    (∀ e, Document.parse .faithful t = .ok e →
      Document.parse .faithful (s ++ t) = .ok (d.append e.nodes)) ∧
    (∀ m, Document.parse .faithful t = .error m → ∃ before, before <+: t.toList ∧
      (∀ b, b <+: t.toList → (Location.behind b = m.location ↔ b = before)) ∧
      Document.parse .faithful (s ++ t) =
        .error ⟨m.detail, Location.behind (s.toList ++ before)⟩) := by
  rcases parse_eq_ok_iff_read.1 hs with ⟨hmode, hread⟩
  have htmark : t.toList.head? ≠ some '\uFEFF' := by
    intro hhead
    exact absurd (ht _ hhead) (by decide)
  have hmeets := meets_of_head (a := s.toList) ht
  have haccepted : ∀ e, Document.parse .faithful t = .ok e →
      Document.parse .faithful (s ++ t) = .ok (d.append e.nodes) := by
    intro e he
    rcases parse_eq_ok_iff_read.1 he with ⟨_, hread'⟩
    refine parse_eq_ok_iff_read.2 ⟨hmode, ?_⟩
    rw [String.toList_append]
    exact read_append hread hread' hmark htmark hmeets
  have hrefused : ∀ m, Document.parse .faithful t = .error m → ∃ before, before <+: t.toList ∧
      (∀ b, b <+: t.toList → (Location.behind b = m.location ↔ b = before)) ∧
      Document.parse .faithful (s ++ t) =
        .error ⟨m.detail, Location.behind (s.toList ++ before)⟩ := by
    intro m hm
    rcases exists_of_parse_error htmark hm with
      ⟨f, before, after, hfault, hsplit, hoffset, hdetail, hlocation⟩
    have hbefore : before <+: t.toList := ⟨after, hsplit.symm⟩
    refine ⟨before, hbefore, fun b hb => ⟨fun hsame => ?_, fun hsame => ?_⟩, ?_⟩
    · exact Location.eq_of_behind_eq hb hbefore (hsame.trans hlocation)
    · rw [hsame, hlocation]
    · refine parse_eq_error_iff_read.2 ⟨f.moved (Text.byteSize s.toList), ?_, ?_⟩
      · rw [String.toList_append]
        exact read_append_eq_error hread hmark htmark hmeets hfault
      -- The fault lies as far behind the first text as it lies behind nothing.
      · have hmoved : f.offset + Text.byteSize s.toList = Text.byteSize (s.toList ++ before) := by
          rw [hoffset, Text.byteSize_append, Nat.add_comm]
        rw [Fault.toMalformed, Malformed.atOffset, Fault.moved, hmoved, hdetail,
          String.toList_append, hsplit, ← List.append_assoc, Location.ofOffset_byteSize]
  refine ⟨⟨?_, ?_⟩, haccepted, hrefused⟩
  · rintro ⟨e, he⟩
    cases hparse : Document.parse .faithful t with
    | ok e' => exact ⟨e', rfl⟩
    | error m =>
        rcases hrefused m hparse with ⟨before, _, _, herror⟩
        exact absurd (he.symm.trans herror) (by simp)
  · rintro ⟨e, he⟩
    exact ⟨_, haccepted e he⟩

/-- An end tag of another name, on the second line of the second text. -/
theorem parse_append_mismatched :
    "é\n<b/>".toList.head? ≠ some '\uFEFF' ∧ (∀ c ∈ "<i>\n</j>".toList.head?, c = '<') ∧
    ∃ d, Document.parse .faithful "é\n<b/>" = .ok d ∧ ∃ m,
      Document.parse .faithful "<i>\n</j>" = .error m ∧ m.location = ⟨2, 1⟩ ∧
        Document.parse .faithful ("é\n<b/>" ++ "<i>\n</j>") = .error ⟨m.detail, ⟨3, 1⟩⟩ := by
  have hmark : "é\n<b/>".toList.head? ≠ some '\uFEFF' := by decide
  have hhead : ∀ c ∈ "<i>\n</j>".toList.head?, c = '<' := by simp
  have hfirst : Document.parse .faithful "é\n<b/>" =
      .ok ⟨.faithful, [.text "é\n", .element { name := "b", selfClosing := true } []]⟩ := by cbv
  have hread : Faithful.read "<i>\n</j>".toList = .error ⟨.mismatchedEnd "i" "j", 4⟩ := by cbv
  have hsecond := parse_eq_error_iff_read.2 ⟨_, hread, rfl⟩
  rcases (parse_append hfirst hmark hhead).2.2 _ hsecond with ⟨before, _, hplace, herror⟩
  have hbefore : ['<', 'i', '>', '\n'] = before :=
    (hplace _ ⟨['<', '/', 'j', '>'], by decide⟩).1 (by decide +kernel)
  rw [← hbefore] at herror
  refine ⟨hmark, hhead, _, hfirst, _, hsecond, by decide +kernel, herror.trans ?_⟩
  exact congrArg (fun l => Except.error (Malformed.mk _ l)) (by decide +kernel)

end SoleRoot

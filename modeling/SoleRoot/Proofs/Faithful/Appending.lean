import SoleRoot.Proofs.Faithful.Acceptance
import SoleRoot.Proofs.Faithful.Cutting

/-!
# One Text Behind Another

What is read from two texts that are put one behind the other.

The tokens of the whole are those of the parts, unless a text run ends the first
part and goes on in the second. `Meets` rules this out: either the first part
ends with a construct, or the second begins with one. Nothing is open at the end
of an accepted text, so the tags of the second part match as they do alone, and
the nodes of the whole are those of the first part and then those of the second.

## Main definitions

* `Meets`: No text run goes on from one text into the other.

## Theorems

* `cut_append`: The tokens of two texts.
* `read_append`: The nodes of two texts.
-/

namespace SoleRoot

namespace Faithful

/-- Whether no text run goes on from one text into the other. -/
def Meets (a b : List Char) : Prop :=
  ∀ t ∈ (cut a).tokens.getLast?, t.isText = true → ∀ c ∈ b.head?, c = '<'

/-- A bracket at the start of the second text ends a text run. -/
theorem meets_of_head {a b : List Char} (h : ∀ c ∈ b.head?, c = '<') : Meets a b :=
  fun _ _ _ => h

/-- Or no text run is left at the end of the first text. -/
theorem meets_of_last {a b : List Char}
    (h : ∀ t ∈ (cut a).tokens.getLast?, t.isText = false) : Meets a b := by
  intro t ht htext
  rw [h t ht] at htext
  exact Bool.noConfusion htext

/-- The tokens of two texts, the first of which is cut to its end. -/
theorem cut_append {a b : List Char} (h : (cut a).failure = none) (hmeets : Meets a b) :
    cut (a ++ b) = ⟨(cut a).tokens ++ (cut b).tokens, (cut b).failure⟩ := by
  unfold Meets at hmeets
  fun_induction cut a with
  | case1 => rfl
  | case2 a ha failure hn => simp at h
  | case3 a ha t rest hn hlt after ih =>
      -- A text run is ended by what follows it in the first text, or else by the
      -- second text.
      have hstop : t.isText = true → ∀ c ∈ (rest ++ b).head?, c = '<' := by
        intro htext c hc
        cases hrest : rest with
        | nil =>
            have hlast : (t :: after.tokens).getLast? = some t := by simp [after, hrest]
            exact hmeets t (by rw [hlast]; rfl) htext c (by simpa [hrest] using hc)
        | cons d ds =>
            rw [hrest] at hc
            exact head?_of_next_text hn htext c (by rw [hrest]; exact hc)
      have hnext : next (a ++ b) = .ok (t, rest ++ b) := by
        rw [eq_of_next hn, List.append_assoc]
        exact next_replace hn ha hstop
      have hafter := ih h fun u hu htext => hmeets u (by
        rw [Option.mem_def] at hu ⊢
        rw [List.getLast?_cons, hu]
        rfl) htext
      rw [cut_of_next (by simp [ha]) hnext, hafter]
      rfl

/-- No byte order mark comes to stand in front. -/
theorem unmarked_append {a b : List Char} (ha : a.head? ≠ some '\uFEFF')
    (hb : b.head? ≠ some '\uFEFF') : (a ++ b).head? ≠ some '\uFEFF' := by
  cases a with
  | nil => exact hb
  | cons c a => exact ha

/-- The nodes of two accepted texts. -/
theorem read_append {a b : List Char} {ns ms : List Node} (ha : read a = .ok ns)
    (hb : read b = .ok ms) (hamark : a.head? ≠ some '\uFEFF') (hbmark : b.head? ≠ some '\uFEFF')
    (hmeets : Meets a b) : read (a ++ b) = .ok (ns ++ ms) := by
  rcases (read_eq_ok_iff_of_unmarked hamark).1 ha with ⟨⟨haend, havalid, habalanced⟩, haevents⟩
  rcases (read_eq_ok_iff_of_unmarked hbmark).1 hb with ⟨⟨hbend, hbvalid, hbbalanced⟩, hbevents⟩
  rw [read_eq_ok_iff_of_unmarked (unmarked_append hamark hbmark), cut_append haend hmeets]
  refine ⟨⟨hbend, ?_, ?_⟩, ?_⟩
  · exact List.forall_mem_append.2 ⟨havalid, hbvalid⟩
  · -- The walk over the second part starts where it would start alone.
    unfold Balanced at habalanced hbbalanced ⊢
    rw [List.foldlM_append, habalanced]
    exact hbbalanced
  · rw [flattenAll_append, haevents, hbevents, List.filterMap_append]

end Faithful

end SoleRoot

import SoleRoot.Text.Search
import SoleRoot.Text.Space
import Mathlib.Data.List.Infix
import Mathlib.Data.List.TakeWhile

/-!
# Cutting Joined Texts

What the scanning functions do to a text that was put together from a part they
take and a part they leave.

Readers in this library cut with `takeWhile`, `dropWhile` and `breakOn?`, and
every proof that a reader undoes a writer comes down to the same question: the
writer joined two texts, and the reader has to cut at the join. For a run of
characters of one class the answer is that all of the first text belongs to the
class and the second does not start with it. For a closing mark it is that the
mark does not stand in the first text.

The second condition needs a word more, since a mark might begin at the end of
the first text and run over into the mark itself. `Unrepeated` rules that out:
the last character of the mark stands nowhere else in it, as with `-->`.

`breakOn?_replace` says that where a cut was made does not depend on what
follows the mark, so a construct that has been cut from one text is cut in the
same way from any other.

## Main definitions

* `Unrepeated`: A mark whose last character occurs only there.

## Theorems

* `takeWhile_append_stop`, `dropWhile_append_stop`: A run ends at the join.
* `takeWhile_ne_append`, `dropWhile_ne_append`: So does a run up to a character.
* `append_inj_stop`, `append_cons_inj`: So joined texts have the same parts.
* `trailing_append`, `trimEnd_append`: And a run counted from the end.
* `prefix_append_cons`, `infix_append_cons`: A mark does not run over a character that
  it does not contain.
* `breakOn?_append`, `append_mark_inj`: A text is cut at the first mark, so texts joined by
  it have the same parts.
* `breakOn?_replace`: The cut does not depend on what follows the mark.
-/

namespace SoleRoot

namespace Text

section Runs

variable {α : Type} {p : α → Bool} {a b : List α}

/-- A run ends at the join if what follows does not go on with it. -/
theorem takeWhile_append_stop (ha : ∀ c ∈ a, p c = true) (hb : ∀ c ∈ b.head?, p c = false) :
    (a ++ b).takeWhile p = a := by
  rw [List.takeWhile_append_of_pos ha]
  cases b with
  | nil => rw [List.takeWhile_nil, List.append_nil]
  | cons c cs =>
      rw [List.takeWhile_cons_of_neg (by rw [hb c rfl]; exact Bool.false_ne_true), List.append_nil]

/-- What is left behind the run is what was joined to it. -/
theorem dropWhile_append_stop (ha : ∀ c ∈ a, p c = true) (hb : ∀ c ∈ b.head?, p c = false) :
    (a ++ b).dropWhile p = b := by
  rw [List.dropWhile_append_of_pos ha]
  cases b with
  | nil => rfl
  | cons c cs =>
      rw [List.dropWhile_cons_of_neg (by rw [hb c rfl]; exact Bool.false_ne_true)]

/-- Texts that were joined where a run ends are the same if they are once they are joined. -/
theorem append_inj_stop {x y : List α} (ha : ∀ c ∈ a, p c = true) (hb : ∀ c ∈ b, p c = true)
    (hx : ∀ c ∈ x.head?, p c = false) (hy : ∀ c ∈ y.head?, p c = false) (h : a ++ x = b ++ y) :
    a = b ∧ x = y := by
  have htake := congrArg (List.takeWhile p) h
  have hdrop := congrArg (List.dropWhile p) h
  -- The run at the front is the first part on both sides, and the rest is the second.
  rw [takeWhile_append_stop ha hx, takeWhile_append_stop hb hy] at htake
  rw [dropWhile_append_stop ha hx, dropWhile_append_stop hb hy] at hdrop
  exact ⟨htake, hdrop⟩

/-- What is left behind a run does not begin with another character of it. -/
theorem not_head_dropWhile (c : α) (hc : c ∈ (a.dropWhile p).head?) : p c = false := by
  have h := List.head?_dropWhile_not p a
  rw [Option.mem_def.1 hc] at h
  simpa only [Bool.not_eq_true] using h

theorem forall_mem_head?_cons {P : α → Prop} {c : α} {cs : List α} :
    (∀ d ∈ (c :: cs).head?, P d) ↔ P c :=
  ⟨fun h => h c rfl, fun h _ hd => Option.some.inj hd ▸ h⟩

/-- A run does not go over a character of another kind. -/
theorem takeWhile_append_cons {c : α} (hc : p c = false) (a b : List α) :
    (a ++ c :: b).takeWhile p = a.takeWhile p := by
  induction a with
  | nil => exact List.takeWhile_cons_of_neg (by rw [hc]; exact Bool.false_ne_true)
  | cons d a ih => rw [List.cons_append, List.takeWhile_cons, List.takeWhile_cons, ih]

variable [DecidableEq α] {c d : α} {cs rest : List α}

/-- A run up to a character ends at the first place of that character. -/
theorem takeWhile_ne_append (h : c ∉ a) (rest : List α) :
    (a ++ c :: rest).takeWhile (· ≠ c) = a :=
  takeWhile_append_stop (fun _ hd => decide_eq_true fun he => h (he ▸ hd))
    (forall_mem_head?_cons.2 (decide_eq_false fun hne => hne rfl))

theorem dropWhile_ne_append (h : c ∉ a) (rest : List α) :
    (a ++ c :: rest).dropWhile (· ≠ c) = c :: rest :=
  dropWhile_append_stop (fun _ hd => decide_eq_true fun he => h (he ▸ hd))
    (forall_mem_head?_cons.2 (decide_eq_false fun hne => hne rfl))

/-- Texts that were joined by a character that stands in neither first part are the same if they are
once they are joined. -/
theorem append_cons_inj {b x y : List α} (ha : c ∉ a) (hb : c ∉ b) (h : a ++ c :: x = b ++ c :: y) :
    a = b ∧ x = y := by
  have htake := congrArg (List.takeWhile (· ≠ c)) h
  have hdrop := congrArg (List.dropWhile (· ≠ c)) h
  rw [takeWhile_ne_append ha, takeWhile_ne_append hb] at htake
  rw [dropWhile_ne_append ha, dropWhile_ne_append hb] at hdrop
  exact ⟨htake, (List.cons.inj hdrop).2⟩

theorem not_mem_takeWhile_ne (c : α) (cs : List α) : c ∉ cs.takeWhile (· ≠ c) := by
  intro h
  have hne := List.mem_takeWhile_imp h
  exact of_decide_eq_true hne rfl

/-- What is left behind a run up to a character starts with that character. -/
theorem eq_of_dropWhile_ne (h : cs.dropWhile (· ≠ c) = d :: rest) :
    cs = cs.takeWhile (· ≠ c) ++ c :: rest := by
  have hstop := not_head_dropWhile d (by rw [h]; rfl)
  have hdc : d = c := not_not.1 (of_decide_eq_false hstop)
  rw [← hdc, ← h, hdc, List.takeWhile_append_dropWhile]

end Runs

section Ends

variable {p : Char → Bool} {a b : List Char}

/-- The run at the end of a text begins where it was joined. -/
theorem trailing_append (ha : ∀ c ∈ a.getLast?, p c = false) (hb : ∀ c ∈ b, p c = true) :
    trailing p (a ++ b) = b := by
  rw [trailing, List.reverse_append, takeWhile_append_stop, List.reverse_reverse]
  · exact fun c hc => hb c (List.mem_reverse.1 hc)
  · exact fun c hc => ha c (by rwa [List.head?_reverse] at hc)

/-- Without the run the first part is left. -/
theorem trimEnd_append (ha : ∀ c ∈ a.getLast?, p c = false) (hb : ∀ c ∈ b, p c = true) :
    trimEnd p (a ++ b) = a := by
  rw [trimEnd, List.reverse_append, dropWhile_append_stop, List.reverse_reverse]
  · exact fun c hc => hb c (List.mem_reverse.1 hc)
  · exact fun c hc => ha c (by rwa [List.head?_reverse] at hc)

/-- A run at the end is longer if more characters are of its kind. -/
theorem trailing_suffix_trailing {q : Char → Bool} (h : ∀ c, p c = true → q c = true) :
    trailing p a <:+ trailing q a := by
  -- Read backwards, both are runs from the start of the same text.
  rw [trailing, trailing, List.reverse_suffix]
  induction a.reverse with
  | nil => exact List.prefix_rfl
  | cons c cs ih =>
      rw [List.takeWhile_cons]
      split
      · rename_i hc
        rw [List.takeWhile_cons_of_pos (h c hc)]
        exact List.prefix_cons_inj c |>.2 ih
      · exact List.nil_prefix

theorem of_mem_trailing (c : Char) (hc : c ∈ trailing p a) : p c = true :=
  List.mem_takeWhile_imp (List.mem_reverse.1 hc)

end Ends

theorem isBlank_of_isXmlSpace {c : Char} (h : isXmlSpace c = true) : isBlank c = true :=
  isBlank_of_isHtmlSpace (isHtmlSpace_of_isXmlSpace h)

/-- A text that does not begin with a byte order mark is left as it is. -/
theorem dropMark_of_unmarked {cs : List Char} (h : cs.head? ≠ some '\uFEFF') :
    dropMark cs = cs := by
  cases cs with
  | nil => rfl
  | cons c cs =>
      rw [dropMark, if_neg]
      rintro rfl
      exact h rfl

section Marks

variable {α : Type} {mark a b : List α} {x : α}

/-- A mark does not run over a character that it does not contain. -/
theorem prefix_append_cons (hx : x ∉ mark) : mark <+: a ++ x :: b ↔ mark <+: a := by
  constructor
  · intro h
    by_cases hlength : mark.length ≤ a.length
    · exact List.prefix_of_prefix_length_le h (List.prefix_append a _) hlength
    · -- A longer mark would run over the character.
      have hlong : a ++ [x] <+: mark := by
        refine List.prefix_of_prefix_length_le ⟨b, ?_⟩ h ?_
        · rw [List.append_assoc, List.singleton_append]
        · rw [List.length_append, List.length_singleton]
          omega
      exact absurd (hlong.subset (List.mem_append_right a (List.mem_singleton_self x))) hx
  · intro h
    exact h.trans (List.prefix_append a _)

/-- So it stands on one side of the character or on the other. -/
theorem infix_append_cons (hx : x ∉ mark) :
    mark <:+: a ++ x :: b ↔ mark <:+: a ∨ mark <:+: b := by
  induction a with
  | nil =>
      have hnil := prefix_append_cons (a := []) (b := b) hx
      rw [List.nil_append] at hnil
      rw [List.nil_append, List.infix_cons_iff, hnil, List.prefix_nil, List.infix_nil]
  -- A mark starts with the first character, or it stands further on.
  | cons c a ih =>
      rw [List.cons_append, List.infix_cons_iff, ih, ← List.cons_append, prefix_append_cons hx,
        List.infix_cons_iff, or_assoc]

end Marks

/-- A mark whose last character stands nowhere else in it, so that two
    occurrences of it never overlap. -/
def Unrepeated (mark : List Char) : Prop :=
  ∃ start last, mark = start ++ [last] ∧ last ∉ start

/-- A mark that does not stand in a text does not start in it either, when the
    text is followed by the mark: it would have to end inside the mark. -/
theorem not_prefix_of_unrepeated {mark content rest : List Char} {c : Char}
    (hmark : Unrepeated mark) (hfree : ¬ mark <:+: c :: content) :
    ¬ mark <+: c :: (content ++ mark ++ rest) := by
  intro hp
  by_cases hlen : mark.length ≤ (c :: content).length
  · have hcontent : c :: content <+: c :: (content ++ mark ++ rest) :=
      ⟨mark ++ rest, by rw [List.cons_append, List.append_assoc]⟩
    exact hfree (List.prefix_of_prefix_length_le hp hcontent hlen).isInfix
  · rcases hmark with ⟨start, last, rfl, hlast⟩
    refine hlast ?_
    -- The last character of the early mark is one of the later mark's others.
    have hget : (c :: (content ++ (start ++ [last]) ++ rest))[start.length]? = some last := by
      rcases hp with ⟨t, ht⟩
      rw [← ht, List.append_assoc, List.getElem?_append_right (Nat.le_refl _), Nat.sub_self]
      rfl
    have hstart : (c :: content).length ≤ start.length := by
      rw [List.length_append, List.length_singleton] at hlen
      omega
    rw [show c :: (content ++ (start ++ [last]) ++ rest) =
      (c :: content) ++ (start ++ ([last] ++ rest)) by simp, List.getElem?_append_right hstart,
      List.getElem?_append_left (by simp only [List.length_cons] at hstart ⊢; omega)] at hget
    exact List.mem_of_getElem? hget

/-- A text without the mark is cut at the first mark behind it. -/
theorem breakOn?_append {mark content : List Char} (hmark : Unrepeated mark)
    (hfree : ¬ mark <:+: content) (rest : List Char) :
    breakOn? mark (content ++ mark ++ rest) = some (content, rest) := by
  induction content with
  | nil =>
      -- The mark stands right here.
      have hne : mark ≠ [] := by
        rcases hmark with ⟨start, last, rfl, _⟩
        simp only [ne_eq, List.append_eq_nil_iff, List.cons_ne_self, and_false, not_false_eq_true]
      cases hm : mark with
      | nil => exact absurd hm hne
      | cons c cs =>
          have hp : (c :: cs).isPrefixOf (c :: (cs ++ rest)) = true :=
            List.isPrefixOf_iff_prefix.2 ⟨rest, rfl⟩
          rw [List.nil_append, List.cons_append, breakOn?, if_pos hp, ← List.cons_append,
            List.drop_left]
  | cons c content ih =>
      -- It does not, and the cut is the one further on.
      have hp : mark.isPrefixOf (c :: (content ++ mark ++ rest)) = false := by
        rw [Bool.eq_false_iff]
        exact fun h => not_prefix_of_unrepeated hmark hfree (List.isPrefixOf_iff_prefix.1 h)
      rw [List.cons_append, List.cons_append, breakOn?, hp, if_neg Bool.false_ne_true,
        ih fun h => hfree (h.trans (List.suffix_cons c content).isInfix)]
      rfl

/-- Texts without the mark that were joined by it are the same if they are once they are
    joined. -/
theorem append_mark_inj {mark a b x y : List Char} (hmark : Unrepeated mark) (ha : ¬ mark <:+: a)
    (hb : ¬ mark <:+: b) (h : a ++ mark ++ x = b ++ mark ++ y) : a = b ∧ x = y := by
  have hbreak := congrArg (breakOn? mark) h
  rw [breakOn?_append hmark ha, breakOn?_append hmark hb, Option.some.injEq, Prod.mk.injEq]
    at hbreak
  exact hbreak

/-- Where a text is cut does not depend on what follows the mark. -/
theorem breakOn?_replace {mark cs before after : List Char}
    (h : breakOn? mark cs = some (before, after)) (after' : List Char) :
    breakOn? mark (before ++ mark ++ after') = some (before, after') := by
  induction cs generalizing before with
  | nil =>
      simp only [breakOn?] at h
      split at h
      · rename_i hm
        simp only [Option.some.injEq, Prod.mk.injEq] at h
        rcases h with ⟨rfl, rfl⟩
        rw [List.isEmpty_iff.1 hm, List.append_nil, List.nil_append]
        cases after' <;> simp [breakOn?]
      · simp at h
  | cons c cs ih =>
      simp only [breakOn?] at h
      split at h
      · -- The mark stands right here, and it does so in the other text.
        rename_i hp
        simp only [Option.some.injEq, Prod.mk.injEq] at h
        rcases h with ⟨rfl, rfl⟩
        rw [List.nil_append]
        cases hm : mark ++ after' with
        | nil => simp_all [breakOn?]
        | cons d ds =>
            have hp' : mark.isPrefixOf (d :: ds) = true :=
              List.isPrefixOf_iff_prefix.2 ⟨after', hm⟩
            rw [breakOn?, if_pos hp', ← hm, List.drop_left]
      · rename_i hp
        rcases Option.map_eq_some_iff.1 h with ⟨⟨content, rest⟩, hb, heq⟩
        simp only [Prod.mk.injEq] at heq
        rcases heq with ⟨rfl, rfl⟩
        -- The first characters, as many as the mark has, are the same in both texts.
        have hp' : mark.isPrefixOf (c :: (content ++ mark ++ after')) = false := by
          rw [Bool.eq_false_iff]
          intro hpre
          refine hp (List.isPrefixOf_iff_prefix.2 ?_)
          rw [eq_of_breakOn? hb]
          have hfirst : c :: (content ++ mark) <+: c :: (content ++ mark ++ after') :=
            ⟨after', by rw [List.cons_append]⟩
          have hlen : mark.length ≤ (c :: (content ++ mark)).length := by
            simp only [List.length_cons, List.length_append]
            omega
          have hshort := List.prefix_of_prefix_length_le (List.isPrefixOf_iff_prefix.1 hpre)
            hfirst hlen
          exact hshort.trans ⟨rest, by rw [List.cons_append]⟩
        rw [List.cons_append, List.cons_append, breakOn?, hp', if_neg Bool.false_ne_true, ih hb]
        rfl

end Text

end SoleRoot

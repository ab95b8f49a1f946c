import SoleRoot.Markup.Location

/-!
# Offsets, Cuts and Locations

A byte offset names a place in a text if a character starts there or the text
ends there. Such an offset is the size of what stands before the place, and the
location of the offset is the location behind what stands before it.

Walking on moves the location forward, so no two places of a text have the same
location. `ofOffset_mark_ne` draws the consequence for a text behind a byte order
mark: an offset that was counted without the mark is resolved too early, and the
location is never the one of the place that was meant.

## Main definitions

* `Text.IsCut`: An offset that names a place.
* `Location.marked`: The location of the same place behind a byte order mark.

## Theorems

* `Text.eq_of_prefix`: Beginnings of a text that look the same are the same.
* `Text.exists_of_slice?`: Where a slice was taken from.
* `Location.behind_append_ne`: Walking on moves the location.
* `Location.eq_of_behind_eq`: A location belongs to one place of a text.
* `Location.behind_mark`: A mark moves the first line only.
* `Location.ofOffset_mark_ne`: Offsets without the mark miss the place.
-/

namespace SoleRoot

namespace Text

/-- Whether a character of a text starts at an offset, or the text ends there. -/
def IsCut (cs : List Char) (n : Nat) : Prop :=
  ∃ before after, cs = before ++ after ∧ byteSize before = n

/-- A place is one still when more is put behind the text. -/
theorem IsCut.append {a : List Char} {n : Nat} (h : IsCut a n) (b : List Char) :
    IsCut (a ++ b) n := by
  rcases h with ⟨before, after, rfl, hn⟩
  exact ⟨before, after ++ b, List.append_assoc _ _ _, hn⟩

/-- The join of two texts is a place between characters. -/
theorem isCut_byteSize (a b : List Char) : IsCut (a ++ b) (byteSize a) :=
  ⟨a, b, rfl, rfl⟩

/-- Every character has at least one byte. -/
theorem eq_nil_of_byteSize {cs : List Char} (h : byteSize cs = 0) : cs = [] := by
  cases cs with
  | nil => rfl
  | cons c cs =>
      have hc := c.utf8Size_pos
      rw [byteSize_cons] at h
      omega

/-- Two beginnings of a text are the same if they look the same in a view in which
    everything that is added shows. -/
theorem eq_of_prefix {β : Type} {view : List Char → β}
    (hview : ∀ a b, b ≠ [] → view (a ++ b) ≠ view a) {a b cs : List Char} (ha : a <+: cs)
    (hb : b <+: cs) (h : view a = view b) : a = b := by
  -- One of them is a beginning of the other, and nothing can be missing.
  have hends : ∀ {x y : List Char}, x <+: y → view x = view y → x = y := by
    rintro x y ⟨rest, rfl⟩ hsame
    by_cases hrest : rest = []
    · rw [hrest, List.append_nil]
    · exact absurd hsame.symm (hview x rest hrest)
  rcases List.prefix_or_prefix_of_prefix ha hb with hprefix | hprefix
  · exact hends hprefix h
  · exact (hends hprefix h.symm).symm

/-- As many bytes as a beginning has hold that beginning. -/
theorem within_byteSize (a b : List Char) : within (byteSize a) (a ++ b) = a := by
  induction a with
  | nil =>
      cases b with
      | nil => rfl
      | cons c b =>
          have hc := c.utf8Size_pos
          rw [byteSize_nil, List.nil_append, within, if_neg (by omega)]
  | cons c a ih =>
      rw [byteSize_cons, List.cons_append, within, if_pos (Nat.le_add_right _ _),
        Nat.add_sub_cancel_left, ih]

/-- What lies inside the first bytes of a text is the beginning of it. -/
theorem exists_within (n : Nat) (cs : List Char) :
    ∃ rest, cs = within n cs ++ rest ∧ byteSize (within n cs) ≤ n := by
  induction cs generalizing n with
  | nil => exact ⟨[], by simp [within], by simp [within]⟩
  | cons c cs ih =>
      rw [within]
      split
      · rename_i hle
        rcases ih (n - c.utf8Size) with ⟨rest, hrest, hsize⟩
        exact ⟨rest, congrArg (c :: ·) hrest, by rw [byteSize_cons]; omega⟩
      · exact ⟨c :: cs, rfl, Nat.zero_le n⟩

/-- What is dropped has as many bytes as were to be dropped. -/
theorem exists_of_dropBytes? {n : Nat} {cs rest : List Char} (h : dropBytes? n cs = some rest) :
    ∃ before, cs = before ++ rest ∧ byteSize before = n := by
  induction cs generalizing n with
  | nil =>
      cases n with
      | zero => exact ⟨[], Option.some.inj h, rfl⟩
      | succ n => simp [dropBytes?] at h
  | cons c cs ih =>
      cases n with
      | zero => exact ⟨[], Option.some.inj h, rfl⟩
      | succ n =>
          rw [dropBytes?] at h
          split at h
          · rcases ih h with ⟨before, rfl, hsize⟩
            exact ⟨c :: before, rfl, by rw [byteSize_cons]; omega⟩
          · simp at h

/-- What is taken is a beginning. -/
theorem exists_of_takeBytes? {n : Nat} {cs wanted : List Char}
    (h : takeBytes? n cs = some wanted) : ∃ rest, cs = wanted ++ rest := by
  induction cs generalizing n wanted with
  | nil =>
      cases n with
      | zero => exact ⟨[], by rw [← Option.some.inj h]; rfl⟩
      | succ n => simp [takeBytes?] at h
  | cons c cs ih =>
      cases n with
      | zero => exact ⟨c :: cs, by rw [← Option.some.inj h]; rfl⟩
      | succ n =>
          rw [takeBytes?] at h
          split at h
          · rcases Option.map_eq_some_iff.1 h with ⟨taken, htaken, rfl⟩
            rcases ih htaken with ⟨rest, rfl⟩
            exact ⟨rest, rfl⟩
          · simp at h

/-- A slice was taken from behind as many bytes as its start says. -/
theorem exists_of_slice? {start stop : Nat} {cs wanted : List Char}
    (h : slice? start stop cs = some wanted) :
    ∃ before after, cs = before ++ (wanted ++ after) ∧ byteSize before = start := by
  rw [slice?] at h
  split at h
  · rcases Option.bind_eq_some_iff.1 h with ⟨dropped, hdropped, htaken⟩
    rcases exists_of_dropBytes? hdropped with ⟨before, rfl, hsize⟩
    rcases exists_of_takeBytes? htaken with ⟨after, rfl⟩
    exact ⟨before, after, rfl, hsize⟩
  · simp at h

end Text

namespace Location

/-- The location of the same place if a byte order mark stands in front of the
    text. -/
def marked (l : Location) : Location :=
  if l.line = 1 then ⟨1, l.column + 1⟩ else l

/-- Walking ends on a later line, or on the same line and as many columns on. -/
theorem foldl_after (l : Location) (cs : List Char) :
    l.line < (cs.foldl after l).line ∨
      cs.foldl after l = ⟨l.line, l.column + cs.length⟩ := by
  induction cs generalizing l with
  | nil => exact .inr rfl
  | cons c cs ih =>
      rw [List.foldl_cons]
      -- Behind a line feed the line is a later one, whatever follows.
      by_cases hc : c = '\n'
      · have hafter : l.after c = ⟨l.line + 1, 1⟩ := if_pos hc
        rw [hafter]
        rcases ih ⟨l.line + 1, 1⟩ with hline | hline
        · exact .inl (Nat.lt_of_succ_lt hline)
        · exact .inl (by rw [hline]; exact Nat.lt_succ_self _)
      · have hafter : l.after c = ⟨l.line, l.column + 1⟩ := if_neg hc
        rw [hafter]
        rcases ih ⟨l.line, l.column + 1⟩ with hline | hline
        · exact .inl hline
        · exact .inr (by rw [hline, List.length_cons, Nat.add_assoc, Nat.add_comm 1])

/-- Walking on moves the location. -/
theorem behind_append_ne (a : List Char) {b : List Char} (hb : b ≠ []) :
    behind (a ++ b) ≠ behind a := by
  have hlength := List.length_pos_iff.2 hb
  rw [behind, List.foldl_append]
  change b.foldl after (behind a) ≠ behind a
  rcases foldl_after (behind a) b with hline | hline
  · intro h
    rw [h] at hline
    omega
  · intro h
    have hcolumn := congrArg column (hline.symm.trans h)
    change (behind a).column + b.length = (behind a).column at hcolumn
    omega

/-- No two beginnings of a text have the same location behind them. -/
theorem eq_of_behind_eq {a b cs : List Char} (ha : a <+: cs) (hb : b <+: cs)
    (h : behind a = behind b) : a = b :=
  Text.eq_of_prefix (fun a _ => behind_append_ne a) ha hb h

theorem one_le_line_after {l : Location} (h : 1 ≤ l.line) (c : Char) : 1 ≤ (l.after c).line := by
  unfold after
  split
  · exact Nat.le_add_left 1 _
  · exact h

/-- The mark moves what comes behind a character as it moves what comes before. -/
theorem marked_after {l : Location} (h : 1 ≤ l.line) (c : Char) :
    l.marked.after c = (l.after c).marked := by
  rcases l with ⟨line, column⟩
  -- A line feed leaves the first line, on which alone the two differ.
  by_cases hc : c = '\n'
  · by_cases hline : line = 1
    · simp [marked, after, hc, hline]
    · have hnext : line ≠ 0 := Nat.one_le_iff_ne_zero.1 h
      simp [marked, after, hc, hline, hnext]
  · by_cases hline : line = 1
    · simp [marked, after, hc, hline]
    · simp [marked, after, hc, hline]

/-- The mark moves the end of a walk as it moves the start. -/
theorem foldl_after_marked {l : Location} (h : 1 ≤ l.line) (cs : List Char) :
    cs.foldl after l.marked = (cs.foldl after l).marked := by
  induction cs generalizing l with
  | nil => rfl
  | cons c cs ih =>
      rw [List.foldl_cons, List.foldl_cons, marked_after h, ih (one_le_line_after h c)]

/-- A byte order mark moves what stands on the first line by one column. -/
theorem behind_mark (cs : List Char) : behind ('\uFEFF' :: cs) = (behind cs).marked :=
  foldl_after_marked (l := {}) (Nat.le_refl 1) cs

/-- The offset behind a beginning is resolved to the location behind it. -/
theorem ofOffset_byteSize (a b : List Char) : ofOffset (a ++ b) (Text.byteSize a) = behind a := by
  rw [ofOffset, Text.within_byteSize]

/-- An offset that does not count the byte order mark is resolved too early. -/
theorem ofOffset_mark_ne (a b : List Char) :
    ofOffset ('\uFEFF' :: (a ++ b)) (Text.byteSize a) ≠ (behind a).marked := by
  rw [← behind_mark, ofOffset]
  rcases Text.exists_within (Text.byteSize a) ('\uFEFF' :: (a ++ b)) with ⟨rest, hrest, hsize⟩
  generalize Text.within (Text.byteSize a) ('\uFEFF' :: (a ++ b)) = found at hrest hsize
  rw [← List.cons_append] at hrest
  have hmark : 0 < Char.utf8Size '\uFEFF' := Char.utf8Size_pos _
  -- Both are beginnings of the same text, and the one that was found is smaller.
  rcases List.append_eq_append_iff.1 hrest with ⟨more, hmore, _⟩ | ⟨more, hmore, _⟩
  · rw [hmore, Text.byteSize_append, Text.byteSize_cons] at hsize
    omega
  · have hne : more ≠ [] := by
      rintro rfl
      rw [List.append_nil] at hmore
      rw [← hmore, Text.byteSize_cons] at hsize
      omega
    rw [hmore]
    exact (behind_append_ne found hne).symm

end Location

end SoleRoot

import Mathlib.Data.List.Induction
import SoleRoot.Proofs.Text.Offsets
import SoleRoot.Proofs.Text.Runs

/-!
# Exact Locations

A location says where a byte offset is, and says it of no other place.

An offset may lie past the end of a text or inside a character. It stands for the last
cut that is not behind it. `stepBack?` finds this cut by going back byte by byte, and
`prefix_within` is why that ends where `Text.within` does: the characters inside the
first bytes have every other beginning of the text that fits in as a beginning.

The location itself is one fold over the characters before the cut. It can also be
found by counting the line feeds, looking for the last of them, and counting the
characters behind it. That is how `scanned?` does it, and it takes the text apart at
offsets that have to be cuts. `behind_eq` says that the fold counts the same, so no
slice is refused on the way.

Walking goes in the other direction. `walk?` skips as many line feeds as a line number
asks for and then the characters of the last line, and it arrives at the cut.

## Main definitions

* `Text.stepBack?`: The last cut at or before an offset, found byte by byte.
* `Text.lastOffset?`: Where a character stands for the last time.
* `Location.scanned?`: A location found by three scans.
* `Location.walk?`: What is left of a text behind a location.
* `Location.Precedes`: The order of locations.

## Theorems

* `Text.stepBack?_eq`: Stepping back arrives at a cut.
* `Location.behind_eq`: Lines and columns, counted.
* `Location.scanned?_eq`: The three scans find the location.
* `Location.walk?_behind`: A location is walked to.
* `Location.ofOffset_exact`: Locations are exact and ordered.
-/

namespace SoleRoot

namespace Text

/-- The last cut at or before an offset. It is looked for byte by byte, and there is
    none if the start of the text is passed. -/
def stepBack? (cs : List Char) : Nat → Option Nat
  | 0 => if (dropBytes? 0 cs).isSome then some 0 else none
  | n + 1 => if (dropBytes? (n + 1) cs).isSome then some (n + 1) else stepBack? cs n

/-- The offset at which a character stands for the last time. -/
def lastOffset? (c : Char) : List Char → Option Nat
  | [] => none
  | d :: ds =>
    match lastOffset? c ds with
    | some n => some (d.utf8Size + n)
    | none => if d = c then some 0 else none

section Cuts

variable {cs : List Char} {n : Nat}

/-- As many bytes can be dropped as stand before a cut. -/
theorem isSome_dropBytes?_iff : (dropBytes? n cs).isSome = true ↔ IsCut cs n := by
  constructor
  · intro h
    rcases Option.isSome_iff_exists.1 h with ⟨rest, hrest⟩
    rcases exists_of_dropBytes? hrest with ⟨before, hcs, hsize⟩
    exact ⟨before, rest, hcs, hsize⟩
  · rintro ⟨before, after, rfl, rfl⟩
    rw [dropBytes?_byteSize]
    rfl

/-- A beginning of a text that fits into some bytes is a beginning of all that does. -/
theorem prefix_within {before : List Char} (h : before <+: cs) (hsize : byteSize before ≤ n) :
    before <+: within n cs := by
  induction before generalizing cs n with
  | nil => exact List.nil_prefix
  | cons c before ih =>
      rcases h with ⟨after, rfl⟩
      rw [byteSize_cons] at hsize
      -- The first character fits in, and what is left of the bytes holds the rest.
      rw [List.cons_append, within, if_pos (by omega)]
      exact (List.prefix_cons_inj c).2 (ih (List.prefix_append before after) (by omega))

/-- What is inside the first bytes is a beginning of the text. -/
theorem within_prefix_self (n : Nat) (cs : List Char) : within n cs <+: cs := by
  rcases exists_within n cs with ⟨rest, hrest, _⟩
  exact ⟨rest, hrest.symm⟩

/-- What is inside the first bytes does not have more of them. -/
theorem byteSize_within_le (n : Nat) (cs : List Char) : byteSize (within n cs) ≤ n := by
  rcases exists_within n cs with ⟨_, _, hsize⟩
  exact hsize

/-- A beginning has no more bytes than the text. -/
theorem byteSize_le_of_prefix {a b : List Char} (h : a <+: b) : byteSize a ≤ byteSize b := by
  rcases h with ⟨rest, rfl⟩
  rw [byteSize_append]
  exact Nat.le_add_right _ _

/-- A text can be cut behind what is inside the first bytes. -/
theorem isCut_within (n : Nat) (cs : List Char) : IsCut cs (byteSize (within n cs)) := by
  rcases exists_within n cs with ⟨rest, hrest, _⟩
  exact ⟨within n cs, rest, hrest, rfl⟩

/-- The bytes of what is inside the first bytes are the last cut among them. -/
theorem le_byteSize_within {k : Nat} (hcut : IsCut cs k) (hle : k ≤ n) :
    k ≤ byteSize (within n cs) := by
  rcases hcut with ⟨before, after, rfl, rfl⟩
  exact byteSize_le_of_prefix (prefix_within (List.prefix_append before after) hle)

/-- A text has no cut behind its end. -/
theorem IsCut.le_byteSize (h : IsCut cs n) : n ≤ byteSize cs := by
  rcases h with ⟨before, after, rfl, rfl⟩
  exact byteSize_le_of_prefix (List.prefix_append before after)

/-- An offset behind the end stands for the end. -/
theorem byteSize_within_min (n : Nat) (cs : List Char) :
    byteSize (within (min n (byteSize cs)) cs) = byteSize (within n cs) := by
  have hmin := byteSize_within_le (min n (byteSize cs)) cs
  have hend := (isCut_within n cs).le_byteSize
  -- Each of the two is a cut that the other one has to reach.
  refine Nat.le_antisymm ?_ ?_
  · exact le_byteSize_within (isCut_within _ cs) (by omega)
  · exact le_byteSize_within (isCut_within n cs)
      (Nat.le_min.2 ⟨byteSize_within_le n cs, hend⟩)

/-- Stepping back arrives at a cut, and at the last one that is not behind. -/
theorem stepBack?_eq (n : Nat) (cs : List Char) :
    stepBack? cs n = some (byteSize (within n cs)) := by
  induction n with
  | zero =>
      have hzero := byteSize_within_le 0 cs
      have hcut : (dropBytes? 0 cs).isSome = true := isSome_dropBytes?_iff.2 ⟨[], cs, rfl, rfl⟩
      rw [stepBack?, if_pos hcut, Nat.le_zero.1 hzero]
  | succ n ih =>
      have hle := byteSize_within_le (n + 1) cs
      rw [stepBack?]
      by_cases hcut : IsCut cs (n + 1)
      -- The offset is a cut itself, and nothing inside the bytes ends behind it.
      · rw [if_pos (isSome_dropBytes?_iff.2 hcut)]
        have hge := le_byteSize_within hcut (Nat.le_refl _)
        exact congrArg some (by omega)
      · -- The last cut is further back, so a byte less makes no difference.
        rw [if_neg fun h => hcut (isSome_dropBytes?_iff.1 h), ih]
        have hne : byteSize (within (n + 1) cs) ≠ n + 1 := fun h => hcut (h ▸ isCut_within _ cs)
        have hback := le_byteSize_within (isCut_within (n + 1) cs) (n := n) (by omega)
        have hon := le_byteSize_within (isCut_within n cs) (n := n + 1)
          (Nat.le_succ_of_le (byteSize_within_le n cs))
        exact congrArg some (by omega)

/-- Beginnings of a text with as many bytes are the same. -/
theorem eq_of_byteSize_eq {a b : List Char} (ha : a <+: cs) (hb : b <+: cs)
    (h : byteSize a = byteSize b) : a = b := by
  refine eq_of_prefix (fun x y hy hsame => hy (eq_nil_of_byteSize ?_)) ha hb h
  rw [byteSize_append] at hsame
  omega

end Cuts

section Lines

/-- Whether a character stays on its line. -/
def staysOnLine (c : Char) : Bool :=
  c ≠ '\n'

/-- The last line has no line feed in it. -/
theorem not_mem_trailing_staysOnLine (cs : List Char) : '\n' ∉ trailing staysOnLine cs :=
  fun h => absurd (of_mem_trailing _ h) (by decide)

/-- A text divided behind its last line feed. -/
theorem trimEnd_staysOnLine_cases (cs : List Char) :
    trimEnd staysOnLine cs = [] ∨ ∃ lines, trimEnd staysOnLine cs = lines ++ ['\n'] := by
  rw [trimEnd]
  cases hlines : cs.reverse.dropWhile staysOnLine with
  | nil => exact .inl rfl
  | cons c lines =>
      have hc := not_head_dropWhile c (by rw [hlines]; rfl)
      have hfeed : c = '\n' := by simpa [staysOnLine] using hc
      exact .inr ⟨lines.reverse, by rw [List.reverse_cons, hfeed]⟩

/-- A character that does not occur has no last occurrence. -/
theorem lastOffset?_of_not_mem {c : Char} {cs : List Char} (h : c ∉ cs) :
    lastOffset? c cs = none := by
  induction cs with
  | nil => rfl
  | cons d ds ih =>
      rw [List.mem_cons, not_or] at h
      rw [lastOffset?, ih h.2]
      exact if_neg (Ne.symm h.1)

/-- A character occurs last where it does not occur behind. -/
theorem lastOffset?_append {c : Char} {b : List Char} (hb : c ∉ b) (a : List Char) :
    lastOffset? c (a ++ c :: b) = some (byteSize a) := by
  induction a with
  | nil =>
      rw [List.nil_append, lastOffset?, lastOffset?_of_not_mem hb]
      exact if_pos rfl
  | cons d a ih => rw [List.cons_append, lastOffset?, ih, byteSize_cons]

/-- The last line begins behind the last line feed, or at the start. -/
theorem lastOffset?_feed (cs : List Char) :
    (lastOffset? '\n' cs).elim 0 (· + 1) = byteSize (trimEnd staysOnLine cs) := by
  have hlast := not_mem_trailing_staysOnLine cs
  have hcs := trimEnd_append_trailing staysOnLine cs
  rcases trimEnd_staysOnLine_cases cs with hnone | ⟨lines, hlines⟩
  -- There is one line only, and it is all of the text.
  · rw [hnone, List.nil_append] at hcs
    rw [hcs] at hlast
    rw [lastOffset?_of_not_mem hlast, hnone]
    rfl
  · rw [hlines, List.append_assoc, List.singleton_append] at hcs
    rw [← hcs, lastOffset?_append hlast, hcs, hlines, byteSize_append]
    rfl

end Lines

end Text

namespace Location

open Text

/-- Whether a location is not behind another one. -/
def Precedes (l m : Location) : Prop :=
  l.line < m.line ∨ l.line = m.line ∧ l.column ≤ m.column

/-- The location of an offset, found by three scans of what stands before the cut that
    the offset is moved back to. There is none if a step or a slice goes wrong. -/
def scanned? (source : List Char) (offset : Nat) : Option Location := do
  let cut ← stepBack? source (min offset (byteSize source))
  let before ← slice? 0 cut source
  let lineStart := (lastOffset? '\n' before).elim 0 (· + 1)
  let lastLine ← dropBytes? lineStart before
  some ⟨before.count '\n' + 1, lastLine.length + 1⟩

/-- What is behind a number of line feeds, if there are as many. -/
def skipLines? : Nat → List Char → Option (List Char)
  | 0, cs => some cs
  | _ + 1, [] => none
  | n + 1, c :: cs => if c = '\n' then skipLines? n cs else skipLines? (n + 1) cs

/-- What is behind a number of characters, if there are as many on the line. -/
def skipColumns? : Nat → List Char → Option (List Char)
  | 0, cs => some cs
  | _ + 1, [] => none
  | n + 1, c :: cs => if c = '\n' then none else skipColumns? n cs

/-- What is left of a text behind a location, if the text has the location. -/
def walk? (source : List Char) (l : Location) : Option (List Char) :=
  (skipLines? (l.line - 1) source).bind (skipColumns? (l.column - 1))

section Counting

/-- One more character moves the location on by this character. -/
theorem behind_append_singleton (cs : List Char) (c : Char) :
    behind (cs ++ [c]) = (behind cs).after c := by
  rw [behind, List.foldl_append]
  rfl

/-- The line of a location counts line feeds, and its column the characters behind the
    last of them. -/
theorem behind_eq (cs : List Char) :
    behind cs = ⟨cs.count '\n' + 1, (trailing staysOnLine cs).length + 1⟩ := by
  -- The induction is on the last character, which is the one that the fold takes last.
  induction cs using List.reverseRecOn with
  | nil => rfl
  | append_singleton cs c ih =>
      have hlast : trailing staysOnLine (cs ++ [c]) =
          ((c :: cs.reverse).takeWhile staysOnLine).reverse := by
        rw [trailing, List.reverse_append, List.reverse_singleton, List.singleton_append]
      rw [behind_append_singleton, ih, after, hlast, List.count_append]
      by_cases hc : c = '\n'
      · rw [if_pos hc, hc, List.takeWhile_cons_of_neg (by decide)]
        rfl
      · have hstays : staysOnLine c = true := decide_eq_true hc
        have hcount : [c].count '\n' = 0 :=
          List.count_eq_zero.2 fun hmem => hc (List.mem_singleton.1 hmem).symm
        rw [if_neg hc, List.takeWhile_cons_of_pos hstays, hcount, List.reverse_cons,
          List.length_append]
        rfl

/-- The three scans find the location, and nothing goes wrong on the way. -/
theorem scanned?_eq (source : List Char) (offset : Nat) :
    scanned? source offset = some (ofOffset source offset) := by
  rcases exists_within offset source with ⟨rest, hrest, _⟩
  -- Neither of the two slices is refused, because both of their ends are cuts.
  have hslice : slice? 0 (byteSize (within offset source)) source =
      some (within offset source) := by
    have h := slice?_append [] (within offset source) rest
    rwa [List.nil_append, ← hrest, byteSize_nil, Nat.zero_add] at h
  have hline (before : List Char) :
      dropBytes? ((lastOffset? '\n' before).elim 0 (· + 1)) before =
        some (trailing staysOnLine before) := by
    have h := dropBytes?_byteSize (trimEnd staysOnLine before) (trailing staysOnLine before)
    rwa [trimEnd_append_trailing, ← lastOffset?_feed] at h
  simp only [scanned?, stepBack?_eq, byteSize_within_min, bind, Option.bind_some, hslice, hline]
  rw [ofOffset, behind_eq]

end Counting

section Walking

/-- Complete lines are skipped by their line feeds. -/
theorem skipLines?_append {lines : List Char}
    (h : ∀ c ∈ lines.getLast?, c = '\n') (rest : List Char) :
    skipLines? (lines.count '\n') (lines ++ rest) = some rest := by
  induction lines with
  | nil => rw [List.nil_append, List.count_nil, skipLines?]
  | cons c lines ih =>
      -- What is left of the lines ends with a line feed, too.
      have hlast : ∀ d ∈ lines.getLast?, d = '\n' := by
        intro d hd
        refine h d ?_
        rw [List.getLast?_cons, Option.mem_def.1 hd]
        rfl
      by_cases hc : c = '\n'
      · rw [hc, List.count_cons_self, List.cons_append, skipLines?, if_pos rfl, ih hlast]
      · -- The line goes on, so its line feed is still to come.
        have hmore : '\n' ∈ lines := by
          cases hlines : lines.getLast? with
          | none =>
              rw [List.getLast?_cons, hlines] at h
              exact absurd (h c rfl) hc
          | some d => exact hlast d hlines ▸ List.mem_of_getLast? hlines
        rcases Nat.exists_eq_succ_of_ne_zero (List.count_pos_iff.2 hmore).ne' with ⟨n, hn⟩
        have hrest := ih hlast
        rw [hn] at hrest
        rw [List.count_cons_of_ne hc, hn, List.cons_append, skipLines?,
          if_neg hc, hrest]

/-- The characters of a line are skipped one by one. -/
theorem skipColumns?_append {line : List Char} (h : '\n' ∉ line) (rest : List Char) :
    skipColumns? line.length (line ++ rest) = some rest := by
  induction line with
  | nil => rw [List.nil_append, List.length_nil, skipColumns?]
  | cons c line ih =>
      rw [List.mem_cons, not_or] at h
      rw [List.length_cons, List.cons_append, skipColumns?, if_neg (Ne.symm h.1), ih h.2]

/-- Walking to the location behind a beginning of a text leaves the rest. -/
theorem walk?_behind (before after : List Char) :
    walk? (before ++ after) (behind before) = some after := by
  have hlast := not_mem_trailing_staysOnLine before
  have hsplit := trimEnd_append_trailing staysOnLine before
  -- All line feeds stand in front of the last line.
  have hcount : before.count '\n' = (trimEnd staysOnLine before).count '\n' := by
    have h := congrArg (List.count '\n') hsplit
    rw [List.count_append, List.count_eq_zero.2 hlast, Nat.add_zero] at h
    exact h.symm
  have hfeeds : ∀ c ∈ (trimEnd staysOnLine before).getLast?, c = '\n' := by
    rcases trimEnd_staysOnLine_cases before with hnone | ⟨lines, hlines⟩
    · simp [hnone]
    · simp [hlines]
  have hlines := skipLines?_append hfeeds (trailing staysOnLine before ++ after)
  -- The line number is the count of line feeds, and the column the length of the last line.
  rw [← List.append_assoc, hsplit, ← hcount] at hlines
  rw [walk?, behind_eq, Nat.add_sub_cancel, Nat.add_sub_cancel, hlines, Option.bind_some,
    skipColumns?_append hlast]

end Walking

/-- The location behind a beginning is not behind that of the whole. -/
theorem precedes_behind_append (a b : List Char) : (behind a).Precedes (behind (a ++ b)) := by
  have hwalk := foldl_after (behind a) b
  have hbehind : b.foldl after (behind a) = behind (a ++ b) := (List.foldl_append ..).symm
  rw [hbehind] at hwalk
  rcases hwalk with hline | hline
  · exact .inl hline
  · rw [hline]
    exact .inr ⟨rfl, Nat.le_add_right _ _⟩

/-- Locations are exact and ordered. Stepping back from an offset arrives at the last
    cut at or before it, the three scans of what stands before the cut find the
    location, and walking to the location arrives at the cut. A later offset has no
    earlier location, and the same one only if it has the same cut. -/
theorem ofOffset_exact (source : List Char) {a b : Nat} (h : a ≤ b) :
    (ofOffset source a).Precedes (ofOffset source b) ∧
      (ofOffset source a = ofOffset source b ↔
        stepBack? source (min a (byteSize source)) =
          stepBack? source (min b (byteSize source))) ∧
      ∀ offset, ∃ before after, source = before ++ after ∧
        stepBack? source (min offset (byteSize source)) = some (byteSize before) ∧
        byteSize before ≤ min offset (byteSize source) ∧
        (∀ cut, IsCut source cut → cut ≤ min offset (byteSize source) →
          cut ≤ byteSize before) ∧
        scanned? source offset = some (ofOffset source offset) ∧
        walk? source (ofOffset source offset) = some after := by
  refine ⟨?_, ?_, ?_⟩
  -- What stands before the first offset is a beginning of what stands before the second.
  · rcases prefix_within (within_prefix_self a source)
      (Nat.le_trans (byteSize_within_le a source) h) with ⟨more, hmore⟩
    rw [ofOffset, ofOffset, ← hmore]
    exact precedes_behind_append _ more
  · rw [stepBack?_eq, stepBack?_eq, byteSize_within_min, byteSize_within_min, Option.some.injEq]
    constructor
    · intro hsame
      -- Two beginnings with the same location behind them are the same beginning.
      rw [eq_of_behind_eq (within_prefix_self a source) (within_prefix_self b source) hsame]
    · intro hsame
      rw [ofOffset, ofOffset,
        eq_of_byteSize_eq (within_prefix_self a source) (within_prefix_self b source) hsame]
  · intro offset
    rcases exists_within offset source with ⟨after, hafter, hsize⟩
    refine ⟨within offset source, after, hafter, ?_, ?_, ?_, scanned?_eq source offset, ?_⟩
    · rw [stepBack?_eq, byteSize_within_min]
    · exact Nat.le_min.2 ⟨hsize, (isCut_within offset source).le_byteSize⟩
    · exact fun cut hcut hle => le_byteSize_within hcut (Nat.le_trans hle (Nat.min_le_left _ _))
    · have hwalk := walk?_behind (within offset source) after
      rwa [← hafter] at hwalk

/-- An offset inside a character of two bytes, and one past the end. -/
theorem ofOffset_exact_within :
    let source := ['a', '\n', '\u00e9', '<']
    3 ≤ 9 ∧ ofOffset source 3 = ⟨2, 1⟩ ∧ ofOffset source 9 = ⟨2, 3⟩ ∧
      (ofOffset source 3).Precedes (ofOffset source 9) ∧
      stepBack? source (min 3 (byteSize source)) ≠ stepBack? source (min 9 (byteSize source)) ∧
      ∃ before after, source = before ++ after ∧ walk? source (ofOffset source 3) = some after := by
  intro source
  have h := ofOffset_exact source (a := 3) (b := 9) (by decide)
  rcases h.2.2 3 with ⟨before, after, hsource, _, _, _, _, hwalk⟩
  refine ⟨by decide, by decide, by decide, h.1, ?_, before, after, hsource, hwalk⟩
  exact fun hcut => absurd (h.2.1.2 hcut) (by decide)

end Location

end SoleRoot

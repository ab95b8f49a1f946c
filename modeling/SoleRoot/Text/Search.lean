/-!
# Searching Text

The first occurrence of a pattern, and replacing every occurrence.

`breakOn?` is how every bracketed construct is cut out: what stands before the
first closing mark, and what follows it. Its law is that the two pieces and the
mark between them make up the text again, so nothing is lost by cutting.

## Main definitions

* `strip?`: The text behind an opening mark.
* `breakOn?`: The texts before and after the first occurrence of a pattern.
* `replaceAll`: Every occurrence replaced, from left to right.

## Theorems

* `strip?_eq_some_iff`: Stripping is the inverse of putting a mark in front.
* `eq_of_breakOn?`: The pieces and the pattern make up the text.
-/

namespace SoleRoot

namespace Text

/-- The text behind a mark, if the text starts with the mark. -/
def strip? (mark cs : List Char) : Option (List Char) :=
  if mark.isPrefixOf cs then some (cs.drop mark.length) else none

theorem strip?_eq_some_iff {mark cs rest : List Char} :
    strip? mark cs = some rest ↔ cs = mark ++ rest := by
  unfold strip?
  constructor
  · intro h
    split at h
    · rename_i hp
      obtain ⟨t, ht⟩ := List.isPrefixOf_iff_prefix.1 hp
      simp only [Option.some.injEq] at h
      rw [← h, ← ht, List.drop_left]
    · simp at h
  · rintro rfl
    simp

/-- The text before the first occurrence of a pattern and the text after it. -/
def breakOn? (pattern : List Char) : List Char → Option (List Char × List Char)
  | [] => if pattern.isEmpty then some ([], []) else none
  | c :: cs =>
    if pattern.isPrefixOf (c :: cs) then some ([], (c :: cs).drop pattern.length)
    else (breakOn? pattern cs).map fun (before, after) => (c :: before, after)

theorem eq_of_breakOn? {pattern cs before after : List Char}
    (h : breakOn? pattern cs = some (before, after)) : cs = before ++ pattern ++ after := by
  induction cs generalizing before with
  | nil =>
      simp only [breakOn?] at h
      split at h
      · simp_all
      · simp at h
  | cons c cs ih =>
      simp only [breakOn?] at h
      split at h
      · rename_i hp
        obtain ⟨t, ht⟩ := List.isPrefixOf_iff_prefix.1 hp
        simp only [Option.some.injEq, Prod.mk.injEq] at h
        obtain ⟨rfl, rfl⟩ := h
        rw [← ht]
        simp
      · cases hb : breakOn? pattern cs with
        | none => simp [hb] at h
        | some p =>
            simp only [hb, Option.map_some, Option.some.injEq, Prod.mk.injEq] at h
            obtain ⟨rfl, rfl⟩ := h
            rw [ih hb]
            simp

/-- Replace every occurrence of `pattern` that does not overlap an earlier
    one. `skip` counts the characters that still belong to the last occurrence. -/
def replaceFrom (pattern new : List Char) : (skip : Nat) → List Char → List Char
  | _, [] => []
  | skip + 1, _ :: cs => replaceFrom pattern new skip cs
  | 0, c :: cs =>
    if pattern.isPrefixOf (c :: cs) then new ++ replaceFrom pattern new (pattern.length - 1) cs
    else c :: replaceFrom pattern new 0 cs

/-- Every occurrence of `pattern` replaced, from left to right. The empty
    pattern occurs before every character and at the end. -/
def replaceAll (pattern new cs : List Char) : List Char :=
  if pattern.isEmpty then cs.flatMap (fun c => new ++ [c]) ++ new
  else replaceFrom pattern new 0 cs

end Text

end SoleRoot

/-!
# Byte Offsets

Texts are lists of characters here, and positions that are reported count the
bytes of their UTF-8 form. This module measures a text in bytes and cuts it at
byte offsets.

An offset names a cut only where a character ends. `within` takes the longest
run of characters that fits, so it always answers; `dropBytes?` and
`takeBytes?` refuse an offset inside a character, and so does `slice?`, which
is the two together.

## Main definitions

* `byteSize`: The number of bytes of a text.
* `within`: The characters that lie wholly inside the first bytes.
* `slice?`: The text between two offsets, if both are cuts.

## Theorems

* `byteSize_append`: Sizes add up.
* `slice?_append`: A slice at the sizes of two texts is the second text.
-/

namespace SoleRoot

namespace Text

/-- The number of bytes of a text in UTF-8. -/
def byteSize : List Char → Nat
  | [] => 0
  | c :: cs => c.utf8Size + byteSize cs

/-- The characters that lie wholly inside the first `n` bytes. -/
def within : Nat → List Char → List Char
  | _, [] => []
  | n, c :: cs => if c.utf8Size ≤ n then c :: within (n - c.utf8Size) cs else []

/-- What follows the first `n` bytes, unless they end inside a character or
    past the end. -/
def dropBytes? : Nat → List Char → Option (List Char)
  | 0, cs => some cs
  | _ + 1, [] => none
  | n + 1, c :: cs => if c.utf8Size ≤ n + 1 then dropBytes? (n + 1 - c.utf8Size) cs else none

/-- The first `n` bytes, unless they end inside a character or past the end. -/
def takeBytes? : Nat → List Char → Option (List Char)
  | 0, _ => some []
  | _ + 1, [] => none
  | n + 1, c :: cs =>
    if c.utf8Size ≤ n + 1 then (takeBytes? (n + 1 - c.utf8Size) cs).map (c :: ·) else none

/-- The text from byte `start` to byte `stop`, if both are character
    boundaries in this order. -/
def slice? (start stop : Nat) (cs : List Char) : Option (List Char) :=
  if start ≤ stop then (dropBytes? start cs).bind (takeBytes? (stop - start)) else none

@[simp] theorem byteSize_nil : byteSize [] = 0 := rfl

@[simp] theorem byteSize_cons (c : Char) (cs : List Char) :
    byteSize (c :: cs) = c.utf8Size + byteSize cs := rfl

@[simp] theorem byteSize_append (a b : List Char) :
    byteSize (a ++ b) = byteSize a + byteSize b := by
  induction a with
  | nil => simp
  | cons c a ih => simp only [List.cons_append, byteSize_cons, ih, Nat.add_assoc]

theorem dropBytes?_byteSize (a b : List Char) : dropBytes? (byteSize a) (a ++ b) = some b := by
  induction a with
  | nil => cases b <;> rfl
  | cons c a ih =>
      have hc := c.utf8Size_pos
      obtain ⟨n, hn⟩ : ∃ n, byteSize (c :: a) = n + 1 := ⟨byteSize (c :: a) - 1, by simp; omega⟩
      rw [hn, List.cons_append, dropBytes?]
      have hle : c.utf8Size ≤ n + 1 := by rw [← hn]; simp
      have hsub : n + 1 - c.utf8Size = byteSize a := by rw [← hn]; simp
      rw [if_pos hle, hsub, ih]

theorem takeBytes?_byteSize (a b : List Char) : takeBytes? (byteSize a) (a ++ b) = some a := by
  induction a with
  | nil => cases b <;> rfl
  | cons c a ih =>
      have hc := c.utf8Size_pos
      obtain ⟨n, hn⟩ : ∃ n, byteSize (c :: a) = n + 1 := ⟨byteSize (c :: a) - 1, by simp; omega⟩
      rw [hn, List.cons_append, takeBytes?]
      have hle : c.utf8Size ≤ n + 1 := by rw [← hn]; simp
      have hsub : n + 1 - c.utf8Size = byteSize a := by rw [← hn]; simp
      rw [if_pos hle, hsub, ih, Option.map_some]

/-- Cutting at the sizes of what comes before and of what is wanted gives what
    is wanted. -/
theorem slice?_append (before wanted after : List Char) :
    slice? (byteSize before) (byteSize before + byteSize wanted) (before ++ wanted ++ after) =
      some wanted := by
  rw [slice?, if_pos (Nat.le_add_right _ _), List.append_assoc, dropBytes?_byteSize,
    Option.bind_some, Nat.add_sub_cancel_left, takeBytes?_byteSize]

end Text

end SoleRoot

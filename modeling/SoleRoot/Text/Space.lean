/-!
# White Space

The three ideas of white space that meet in this library.

A reader of markup has to say which characters separate things, and the sets
in use do not agree. `isBlank` is the widest: the Unicode property
`White_Space`, under which a no-break space is blank. `isXmlSpace` is the four
characters that separate the parts of a tag in strict markup, and
`isHtmlSpace` is those four and the form feed, as HTML has it. Keeping them as
three predicates with three names is what lets a statement say which one it
means.

## Main definitions

* `isBlank`: The Unicode property `White_Space`.
* `isXmlSpace`: Space, tab, carriage return and line feed.
* `isHtmlSpace`: The same and the form feed.
* `trimEnd`: A text without the characters of a class at its end.
* `dropMark`: A text without a byte order mark at its start.

## Theorems

* `isBlank_of_isHtmlSpace`, `isHtmlSpace_of_isXmlSpace`: The three sets are
  nested.
-/

namespace SoleRoot

namespace Text

/-- The characters with the Unicode property `White_Space`. -/
def isBlank (c : Char) : Bool :=
  let n := c.toNat
  (9 ≤ n && n ≤ 13) || n == 0x20 || n == 0x85 || n == 0xA0 || n == 0x1680 ||
    (0x2000 ≤ n && n ≤ 0x200A) || n == 0x2028 || n == 0x2029 || n == 0x202F ||
    n == 0x205F || n == 0x3000

/-- The white space of strict markup: space, tab, carriage return, line feed. -/
def isXmlSpace (c : Char) : Bool :=
  c == ' ' || c == '\t' || c == '\r' || c == '\n'

/-- The white space of HTML: that of strict markup and the form feed. -/
def isHtmlSpace (c : Char) : Bool :=
  isXmlSpace c || c == '\x0c'

theorem isHtmlSpace_of_isXmlSpace {c : Char} (h : isXmlSpace c = true) :
    isHtmlSpace c = true := by
  simp only [isHtmlSpace, h, Bool.true_or]

theorem isBlank_of_isHtmlSpace {c : Char} (h : isHtmlSpace c = true) : isBlank c = true := by
  simp only [isHtmlSpace, isXmlSpace, Bool.or_eq_true, beq_iff_eq] at h
  rcases h with (((rfl | rfl) | rfl) | rfl) | rfl <;> rfl

/-- A text without the characters of a class at its end. -/
def trimEnd (p : Char → Bool) (cs : List Char) : List Char :=
  (cs.reverse.dropWhile p).reverse

/-- The characters of a class that stand at the end of a text. -/
def trailing (p : Char → Bool) (cs : List Char) : List Char :=
  (cs.reverse.takeWhile p).reverse

theorem trimEnd_append_trailing (p : Char → Bool) (cs : List Char) :
    trimEnd p cs ++ trailing p cs = cs := by
  rw [trimEnd, trailing, ← List.reverse_append, List.takeWhile_append_dropWhile,
    List.reverse_reverse]

/-- A text without a byte order mark at its start. A second one is text. -/
def dropMark : List Char → List Char
  | [] => []
  | c :: cs => if c = '\uFEFF' then cs else c :: cs

theorem dropMark_suffix (cs : List Char) : dropMark cs <:+ cs := by
  cases cs with
  | nil => exact List.suffix_refl _
  | cons c cs =>
      rw [dropMark]
      split
      · exact List.suffix_cons _ _
      · exact List.suffix_refl _

end Text

end SoleRoot

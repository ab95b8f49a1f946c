import SoleRoot.Component.Literal
import SoleRoot.Json.Text
import SoleRoot.Text.Search

/-!
# Reading Literals

What a string literal of a script stands for, and that a text written as a literal is
read as that text.

The reader keeps to the rules of scripts for literals in single quotes, with all their
escapes and not only those that are written here. A literal ends at the first quote
that is not part of an escape, and may not run over a line feed or a carriage return.
Its value is a list of sixteen-bit units, since an escape may name half of a
character; it is a text if no half stands alone.

The writer makes one piece of each character, either an escape or the character
itself. `scriptLiteralChar_cases` says which, and that the reader takes an escape for
the character and goes on right behind it. So the pieces may stand in any order, and
a backslash before a quote is no case of its own.

## Main definitions

* `endsLine`: The characters that end a line in a script.
* `units`, `ofUnits?`: Code points as sixteen-bit units, and back.
* `readEscape?`: An escape, behind its backslash.
* `readUnits?`, `readLiteral?`: A literal.

## Theorems

* `ofUnits?_flatMap_units`: A text is found again from its units.
* `readLiteral?_scriptLiteral`: A text is read back from its literal.
* `endsLine_of_mem_scriptLiteral`: A literal stays on its line.
-/

namespace SoleRoot

namespace Script

open Json (hexValue? isLeading isTrailing pairChar)

/-- Whether a character ends a line in a script. -/
def endsLine (c : Char) : Bool :=
  c = '\n' || c = '\r' || c = '\u2028' || c = '\u2029'

/-- The sixteen-bit units of a code point. -/
def units (n : Nat) : List Nat :=
  if n < 0x10000 then [n]
  else [0xD800 + (n - 0x10000) / 0x400, 0xDC00 + (n - 0x10000) % 0x400]

/-- The characters that units stand for, unless half of a character stands alone. -/
def ofUnits? : List Nat → Option (List Char)
  | [] => some []
  | [n] => if isLeading n || isTrailing n then none else some [Char.ofNat n]
  | n :: m :: ns =>
    if isLeading n then
      if isTrailing m then (ofUnits? ns).map (pairChar n m :: ·) else none
    else if isTrailing n then none
    else (ofUnits? (m :: ns)).map (Char.ofNat n :: ·)

/-- Read a unit that is given by a fixed number of digits. -/
def readHex? (count : Nat) (cs : List Char) : Option (List Nat × List Char) :=
  if count ≤ cs.length then (hexValue? (cs.take count)).map fun n => ([n], cs.drop count)
  else none

/-- Read a code point that is given by digits in braces, behind the opening brace. -/
def readBraced? (cs : List Char) : Option (List Nat × List Char) := do
  let digits := cs.takeWhile (· ≠ '\x7d')
  let rest ← Text.strip? ['\x7d'] (cs.dropWhile (· ≠ '\x7d'))
  let n ← hexValue? digits
  if digits ≠ [] ∧ n ≤ 0x10FFFF then some (units n, rest) else none

/-- The character that an escape of one character stands for. Most stand for
    themselves. -/
def letter (c : Char) : Char :=
  if c = 'b' then '\x08'
  else if c = 'f' then '\x0c'
  else if c = 'n' then '\n'
  else if c = 'r' then '\r'
  else if c = 't' then '\t'
  else if c = 'v' then '\x0b'
  else c

/-- Read an escape, behind its backslash. One before the end of a line stands for
    nothing, and among the digits only a zero has one, if no digit follows. -/
def readEscape? : List Char → Option (List Nat × List Char)
  | [] => none
  | x :: rest =>
    if x = 'x' then readHex? 2 rest
    else if x = 'u' then
      if rest.head? = some '\x7b' then readBraced? rest.tail else readHex? 4 rest
    else if x = '0' ∧ rest.head?.any Char.isDigit = false then some ([0], rest)
    else if x.isDigit then none
    else if x = '\r' ∧ rest.head? = some '\n' then some ([], rest.tail)
    else if endsLine x then some ([], rest)
    else some (units (letter x).toNat, rest)

section Lengths

theorem length_of_readHex? {count : Nat} {cs rest : List Char} {us : List Nat}
    (h : readHex? count cs = some (us, rest)) : rest.length ≤ cs.length := by
  unfold readHex? at h
  split at h
  · rcases Option.map_eq_some_iff.1 h with ⟨n, _, heq⟩
    simp only [Prod.mk.injEq] at heq
    rw [← heq.2, List.length_drop]
    omega
  · simp at h

theorem length_of_readBraced? {cs rest : List Char} {us : List Nat}
    (h : readBraced? cs = some (us, rest)) : rest.length ≤ cs.length := by
  simp only [readBraced?, bind, Option.bind_eq_some_iff] at h
  rcases h with ⟨rest', hrest, n, _, h⟩
  -- The digits and the brace are not among what is left.
  have hlength := (List.dropWhile_suffix (l := cs) (· ≠ '\x7d')).length_le
  rw [Text.strip?_eq_some_iff.1 hrest, List.length_append] at hlength
  split at h
  · simp only [Option.some.injEq, Prod.mk.injEq] at h
    rw [← h.2]
    omega
  · simp at h

/-- An escape takes at least one character. -/
theorem length_of_readEscape? {cs rest : List Char} {us : List Nat}
    (h : readEscape? cs = some (us, rest)) : rest.length < cs.length := by
  cases cs with
  | nil => simp [readEscape?] at h
  | cons x cs =>
      have htail : cs.tail.length ≤ cs.length := by
        rw [List.length_tail]
        omega
      have hle : rest.length ≤ cs.length := by
        -- Besides the first character an escape takes none, one, or a number of digits.
        simp only [readEscape?] at h
        split at h
        · exact length_of_readHex? h
        split at h
        · split at h
          · exact Nat.le_trans (length_of_readBraced? h) htail
          · exact length_of_readHex? h
        split at h
        · simp only [Option.some.injEq, Prod.mk.injEq] at h
          exact Nat.le_of_eq (congrArg List.length h.2.symm)
        split at h
        · simp at h
        split at h
        · simp only [Option.some.injEq, Prod.mk.injEq] at h
          rw [← h.2]
          exact htail
        split at h
        · simp only [Option.some.injEq, Prod.mk.injEq] at h
          exact Nat.le_of_eq (congrArg List.length h.2.symm)
        · simp only [Option.some.injEq, Prod.mk.injEq] at h
          exact Nat.le_of_eq (congrArg List.length h.2.symm)
      exact Nat.lt_succ_of_le hle

end Lengths

/-- Read the units of a literal, behind its opening quote. -/
def readUnits? (cs : List Char) : Option (List Nat × List Char) :=
  match cs with
  | [] => none
  | x :: rest =>
    if x = '\'' then some ([], rest)
    else if x = '\\' then
      match _h : readEscape? rest with
      | none => none
      | some (us, behind) => (readUnits? behind).map fun (vs, rest) => (us ++ vs, rest)
    else if x = '\n' ∨ x = '\r' then none
    else (readUnits? rest).map fun (vs, rest) => (units x.toNat ++ vs, rest)
termination_by cs.length
decreasing_by
  · exact Nat.lt_succ_of_lt (length_of_readEscape? _h)
  · exact Nat.lt_succ_self rest.length

/-- Read a literal in single quotes: its text, and what is behind it. -/
def readLiteral? (cs : List Char) : Option (String × List Char) := do
  let inside ← Text.strip? ['\''] cs
  let (us, rest) ← readUnits? inside
  let text ← ofUnits? us
  some (String.ofList text, rest)

section Units

theorem toNat_lt (c : Char) : c.toNat < 0x110000 := by
  have h := c.valid
  simp only [UInt32.isValidChar, Nat.isValidChar] at h
  have : c.val.toNat = c.toNat := rfl
  omega

/-- No code point of a character is half of one. -/
theorem isLeading_toNat (c : Char) : isLeading c.toNat = false ∧ isTrailing c.toNat = false := by
  have h := c.valid
  simp only [UInt32.isValidChar, Nat.isValidChar] at h
  have : c.val.toNat = c.toNat := rfl
  simp only [isLeading, isTrailing, Bool.and_eq_false_iff, decide_eq_false_iff_not]
  omega

/-- A text is found again from its units. -/
theorem ofUnits?_flatMap_units (cs : List Char) :
    ofUnits? (cs.flatMap fun c => units c.toNat) = some cs := by
  induction cs with
  | nil => rfl
  | cons c cs ih =>
      rw [List.flatMap_cons]
      by_cases hplane : c.toNat < 0x10000
      · rw [units, if_pos hplane, List.singleton_append]
        rcases isLeading_toNat c with ⟨hleading, htrailing⟩
        -- A character of the first plane is one unit, which is no half whatever comes behind it.
        cases hunits : cs.flatMap fun c => units c.toNat with
        | nil =>
            rw [hunits, ofUnits?, Option.some.injEq] at ih
            rw [ofUnits?, hleading, htrailing, ← ih, Char.ofNat_toNat]
            rfl
        | cons m ms =>
            rw [hunits] at ih
            rw [ofUnits?, hleading, htrailing, ih, Char.ofNat_toNat]
            rfl
      · -- A character beyond the first plane takes two units.
        rw [units, if_neg hplane, List.cons_append, List.singleton_append, ofUnits?, ih]
        have hlt := toNat_lt c
        have hleading : isLeading (0xD800 + (c.toNat - 0x10000) / 0x400) = true := by
          simp only [isLeading, Bool.and_eq_true, decide_eq_true_eq]
          omega
        have htrailing : isTrailing (0xDC00 + (c.toNat - 0x10000) % 0x400) = true := by
          simp only [isTrailing, Bool.and_eq_true, decide_eq_true_eq]
          omega
        have hpair : pairChar (0xD800 + (c.toNat - 0x10000) / 0x400)
            (0xDC00 + (c.toNat - 0x10000) % 0x400) = c := by
          rw [pairChar, show 0x10000 + (0xD800 + (c.toNat - 0x10000) / 0x400 - 0xD800) * 0x400 +
            (0xDC00 + (c.toNat - 0x10000) % 0x400 - 0xDC00) = c.toNat by omega, Char.ofNat_toNat]
        rw [if_pos hleading, if_pos htrailing, hpair, Option.map_some]

end Units

section Written

/-- How a character is written: by an escape, which is read as the character whatever
    follows, or as it is. -/
theorem scriptLiteralChar_cases (c : Char) :
    (∃ e, scriptLiteralChar c = '\\' :: e ∧ (∀ d ∈ e, endsLine d = false) ∧
        ∀ rest, readEscape? (e ++ rest) = some (units c.toNat, rest)) ∨
      (c ≠ '\\' ∧ c ≠ '\'' ∧ endsLine c = false ∧ scriptLiteralChar c = [c]) := by
  unfold scriptLiteralChar
  split
  · rename_i h
    subst h
    exact .inl ⟨['\\'], rfl, by simp [endsLine],
      fun rest => by simp [readEscape?, endsLine, letter]⟩
  rename_i hslash
  split
  · rename_i h
    subst h
    exact .inl ⟨['\''], rfl, by simp [endsLine],
      fun rest => by simp [readEscape?, endsLine, letter]⟩
  rename_i hquote
  split
  · rename_i h
    subst h
    exact .inl ⟨['n'], rfl, by simp [endsLine], fun rest => by simp [readEscape?, endsLine, letter]⟩
  rename_i hfeed
  split
  · rename_i h
    subst h
    exact .inl ⟨['r'], rfl, by simp [endsLine], fun rest => by simp [readEscape?, endsLine, letter]⟩
  rename_i hreturn
  split
  · rename_i h
    subst h
    exact .inl ⟨['u', '2', '0', '2', '8'], rfl, by simp [endsLine], fun rest => by
      simp [readEscape?, readHex?, hexValue?, Json.hexDigit?, units]⟩
  rename_i hline
  split
  · rename_i h
    subst h
    exact .inl ⟨['u', '2', '0', '2', '9'], rfl, by simp [endsLine], fun rest => by
      simp [readEscape?, readHex?, hexValue?, Json.hexDigit?, units]⟩
  rename_i hparagraph
  refine .inr ⟨hslash, hquote, ?_, rfl⟩
  simp only [endsLine, hfeed, hreturn, hline, hparagraph, decide_false, Bool.or_false]

theorem readUnits?_flatMap (cs rest : List Char) :
    readUnits? (cs.flatMap scriptLiteralChar ++ '\'' :: rest) =
      some (cs.flatMap fun c => units c.toNat, rest) := by
  induction cs with
  | nil =>
      rw [List.flatMap_nil, List.nil_append, readUnits?]
      exact if_pos rfl
  | cons c cs ih =>
      have hne : ('\\' : Char) ≠ '\'' := by decide
      rw [List.flatMap_cons, List.append_assoc, List.flatMap_cons]
      rcases scriptLiteralChar_cases c with ⟨e, he, _, hread⟩ | ⟨hslash, hquote, hends, hc⟩
      · rw [he, List.cons_append, readUnits?, if_neg hne, if_pos rfl]
        -- The escape is taken for the character, and what is left are the other pieces.
        split
        · rename_i hnone
          rw [hread] at hnone
          simp at hnone
        · rename_i us behind hsome
          rw [hread, Option.some.injEq, Prod.mk.injEq] at hsome
          rw [← hsome.1, ← hsome.2, ih, Option.map_some]
      · have hline : ¬ (c = '\n' ∨ c = '\r') := by
          rintro (rfl | rfl)
          · exact absurd hends (by decide)
          · exact absurd hends (by decide)
        rw [hc, List.singleton_append, readUnits?, if_neg hquote, if_neg hslash, if_neg hline, ih,
          Option.map_some]

theorem toList_scriptLiteral (s : String) :
    (scriptLiteral s).toList = '\'' :: s.toList.flatMap scriptLiteralChar ++ ['\''] := by
  rw [scriptLiteral, String.toList_ofList, writeScriptLiteral]

/-- A text is read back from its literal, up to the literal's end. -/
theorem readLiteral?_scriptLiteral (s : String) (rest : List Char) :
    readLiteral? ((scriptLiteral s).toList ++ rest) = some (s, rest) := by
  have hstrip : Text.strip? ['\''] ((scriptLiteral s).toList ++ rest) =
      some (s.toList.flatMap scriptLiteralChar ++ '\'' :: rest) := by
    rw [Text.strip?_eq_some_iff, toList_scriptLiteral]
    simp only [List.cons_append, List.append_assoc, List.nil_append]
  simp only [readLiteral?, hstrip, readUnits?_flatMap, ofUnits?_flatMap_units, bind,
    Option.bind_some, String.ofList_toList]

/-- A literal stays on its line. -/
theorem endsLine_of_mem_scriptLiteral {s : String} {c : Char}
    (h : c ∈ (scriptLiteral s).toList) : endsLine c = false := by
  have hpiece (d : Char) (hc : c ∈ scriptLiteralChar d) : endsLine c = false := by
    rcases scriptLiteralChar_cases d with ⟨e, he, hends, _⟩ | ⟨_, _, hends, hd⟩
    · rw [he, List.mem_cons] at hc
      rcases hc with rfl | hc
      · decide
      · exact hends c hc
    · rw [hd, List.mem_singleton] at hc
      rw [hc]
      exact hends
  rw [toList_scriptLiteral, List.cons_append, List.mem_cons, List.mem_append,
    List.mem_singleton, List.mem_flatMap] at h
  rcases h with rfl | ⟨d, _, hd⟩ | rfl
  · decide
  · exact hpiece d hd
  · decide

end Written

end Script

end SoleRoot

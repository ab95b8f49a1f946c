import Mathlib.Data.List.Basic
import SoleRoot.Html.Printer
import SoleRoot.Html.Reference
import SoleRoot.Proofs.Text.Runs

/-!
# Escapes

Reading an escape gives the character that was escaped.

An escape is an ampersand and a name with its semicolon. The reader looks for the
longest name it knows, and what follows the escape is any text, so the question
is whether a longer name could begin with the name of the escape. None does:
`Ultimate` says so of a name, and the four names are looked up in the table. The
longest name is then the same whatever follows.

## Main definitions

* `Ultimate`: No known name goes on from a given one.
* `Telling`: Characters are written as themselves or as references.

## Theorems

* `longestName?_append`: The longest name does not depend on what follows it.
* `escapeTextChar_cases`, `escapeValueChar_cases`: A character is written as it is, or by an
  escape that is read back.
* `escapeText_injective`, `escapeValue_injective`: What was escaped can be told, whatever
  characters it has.
* `decodeValue_escapeValue`: Decoding undoes escaping.
-/

namespace SoleRoot

namespace Html

namespace Reference

/-- Whether no known name goes on from the name `c :: cs`. -/
def Ultimate (c : Char) (cs : List Char) : Prop :=
  ∀ entry ∈ namesOf c, c :: cs <+: entry.1.toList → entry.1.toList = c :: cs

instance (c : Char) (cs : List Char) : Decidable (Ultimate c cs) :=
  inferInstanceAs (Decidable (∀ entry ∈ namesOf c, _))

/-- A name that does not go on from another is found in front of a text if it is
    found in front of that other name. -/
theorem isPrefixOf_append {name other : List Char} (rest : List Char)
    (h : name <+: other → other = name) :
    other.isPrefixOf (name ++ rest) = other.isPrefixOf name := by
  rw [Bool.eq_iff_iff, List.isPrefixOf_iff_prefix, List.isPrefixOf_iff_prefix]
  constructor
  · intro hother
    -- Both are at the front of the same text, so one is at the front of the other.
    rcases List.prefix_or_prefix_of_prefix hother (List.prefix_append name rest) with hle | hge
    · exact hle
    · exact h hge ▸ List.prefix_refl _
  · intro hother
    exact hother.trans (List.prefix_append name rest)

/-- The longest known name does not depend on what follows it. -/
theorem longestName?_append {c : Char} {cs : List Char} (h : Ultimate c cs) (rest : List Char) :
    longestName? (c :: cs ++ rest) = longestName? (c :: cs) := by
  rw [List.cons_append, longestName?, longestName?]
  refine List.foldl_ext _ _ _ fun best entry hentry => ?_
  rw [← List.cons_append, isPrefixOf_append rest (h entry hentry)]

/-- Whether a name with its semicolon is known for one character. -/
structure Names (d c : Char) (cs : List Char) : Prop where
  ultimate : Ultimate c cs
  longest : longestName? (c :: cs) = some (c :: cs, [d.toNat])
  numberless : c ≠ '#'
  complete : (c :: cs).getLast? = some ';'

/-- What is read from a reference, whatever follows it. -/
theorem Names.read? {d c : Char} {cs : List Char} (h : Names d c cs) (inAttribute : Bool)
    (rest : List Char) :
    read? inAttribute (c :: cs ++ rest) = some ⟨[d], true, rest⟩ := by
  have hlongest := (longestName?_append h.ultimate rest).trans h.longest
  rw [List.cons_append] at hlongest
  rw [List.cons_append, Reference.read?, if_neg h.numberless, readNamed?, hlongest]
  simp [h.complete]

/-- The names that are written are complete, and known for one character each. -/
theorem names_ampersand : Names '&' 'a' ['m', 'p', ';'] :=
  ⟨by decide +kernel, by decide +kernel, by decide, rfl⟩

theorem names_less : Names '<' 'l' ['t', ';'] :=
  ⟨by decide +kernel, by decide +kernel, by decide, rfl⟩

theorem names_greater : Names '>' 'g' ['t', ';'] :=
  ⟨by decide +kernel, by decide +kernel, by decide, rfl⟩

theorem names_quote : Names '"' 'q' ['u', 'o', 't', ';'] :=
  ⟨by decide +kernel, by decide +kernel, by decide, rfl⟩

end Reference

open Reference

/-- How a character of an attribute value is written. -/
theorem escapeValueChar_cases (d : Char) :
    (∃ c cs, escapeValueChar d = '&' :: c :: cs ∧ Names d c cs) ∨
      (d ≠ '&' ∧ d ≠ '"' ∧ escapeValueChar d = [d]) := by
  unfold escapeValueChar escapeTextChar
  split
  · rename_i h
    exact .inl ⟨_, _, rfl, h ▸ names_quote⟩
  split
  · rename_i h
    exact .inl ⟨_, _, rfl, h ▸ names_ampersand⟩
  split
  · rename_i h
    exact .inl ⟨_, _, rfl, h ▸ names_less⟩
  split
  · rename_i h
    exact .inl ⟨_, _, rfl, h ▸ names_greater⟩
  · rename_i hquote hampersand _ _
    exact .inr ⟨hampersand, hquote, rfl⟩

/-- How a character of a text is written. -/
theorem escapeTextChar_cases (d : Char) :
    (∃ c cs, escapeTextChar d = '&' :: c :: cs ∧ Names d c cs) ∨
      (d ≠ '&' ∧ d ≠ '<' ∧ d ≠ '>' ∧ escapeTextChar d = [d]) := by
  unfold escapeTextChar
  split
  · rename_i h
    exact .inl ⟨_, _, rfl, h ▸ names_ampersand⟩
  split
  · rename_i h
    exact .inl ⟨_, _, rfl, h ▸ names_less⟩
  split
  · rename_i h
    exact .inl ⟨_, _, rfl, h ▸ names_greater⟩
  · rename_i hampersand hless hgreater
    exact .inr ⟨hampersand, hless, hgreater, rfl⟩

section Codes

/-- Whether every character is written as a reference to it or, if it is no ampersand, as
    it is. -/
def Telling (escape : Char → List Char) : Prop :=
  ∀ d, (∃ c cs, escape d = '&' :: c :: cs ∧ Names d c cs) ∨ d ≠ '&' ∧ escape d = [d]

variable {escape : Char → List Char}

/-- An escape can be told from what follows it, since a reader of references can tell. -/
theorem Telling.append_inj (hescape : Telling escape) {d e : Char} {x y : List Char}
    (h : escape d ++ x = escape e ++ y) : d = e ∧ x = y := by
  rcases hescape d with ⟨c, cs, hd, hnames⟩ | ⟨hne, hd⟩
  · rcases hescape e with ⟨c', cs', he, hnames'⟩ | ⟨hne', he⟩
    · rw [hd, he] at h
      have hnext : c :: cs ++ x = c' :: cs' ++ y := (List.cons.inj h).2
      -- Both sides are read as a reference, to one character and with one rest.
      have hread := congrArg (read? false) hnext
      rw [hnames.read? false x, hnames'.read? false y] at hread
      simpa using hread
    · rw [hd, he] at h
      exact absurd (List.cons.inj h).1.symm hne'
  · rcases hescape e with ⟨c', cs', he, _⟩ | ⟨_, he⟩
    · rw [hd, he] at h
      exact absurd (List.cons.inj h).1 hne
    · rw [hd, he] at h
      exact List.cons.inj h

/-- So a text can be told from what is written of it. -/
theorem Telling.flatMap_injective (hescape : Telling escape) :
    Function.Injective (List.flatMap escape) := by
  have hne (d : Char) : escape d ≠ [] := by
    rcases hescape d with ⟨c, cs, hd, _⟩ | ⟨_, hd⟩
    · rw [hd]
      exact List.cons_ne_nil _ _
    · rw [hd]
      exact List.cons_ne_nil _ _
  intro cs ds h
  -- The first escape is told from what follows it, and the rest by induction.
  induction cs generalizing ds with
  | nil =>
      cases ds with
      | nil => rfl
      | cons d ds => exact absurd (List.append_eq_nil_iff.1 h.symm).1 (hne d)
  | cons c cs ih =>
      cases ds with
      | nil => exact absurd (List.append_eq_nil_iff.1 h).1 (hne c)
      | cons d ds =>
          rcases hescape.append_inj h with ⟨rfl, hrest⟩
          rw [ih hrest]

/-- A text can be told from its escapes. -/
theorem escapeText_injective : Function.Injective escapeText :=
  have htelling : Telling escapeTextChar := fun d =>
    (escapeTextChar_cases d).imp_right fun h => ⟨h.1, h.2.2.2⟩
  htelling.flatMap_injective

/-- An attribute value can be told from its escapes. -/
theorem escapeValue_injective : Function.Injective escapeValue :=
  have htelling : Telling escapeValueChar := fun d =>
    (escapeValueChar_cases d).imp_right fun h => ⟨h.1, h.2.2⟩
  htelling.flatMap_injective

end Codes

/-- A reference is decoded to its characters. -/
theorem decodeValue_reference {cs : List Char} {d : Decoded} (h : read? true cs = some d) :
    decodeValue ('&' :: cs) = d.characters ++ decodeValue d.rest := by
  rw [decodeValue, if_pos rfl]
  split
  · rename_i found hfound
    rcases Option.some.inj (h.symm.trans hfound) with rfl
    rfl
  · rename_i hfound
    rw [h] at hfound
    simp at hfound

/-- Most characters are decoded to themselves. -/
theorem decodeValue_plain {c : Char} (hampersand : c ≠ '&') (hnull : c ≠ '\x00') (cs : List Char) :
    decodeValue (c :: cs) = c :: decodeValue cs := by
  rw [decodeValue, if_neg hampersand, if_neg hnull]

/-- Decoding an attribute value undoes its escapes. -/
theorem decodeValue_escapeValue {cs : List Char} (h : '\x00' ∉ cs) :
    decodeValue (escapeValue cs) = cs := by
  induction cs with
  | nil => rw [escapeValue, List.flatMap_nil, decodeValue]
  | cons c cs ih =>
      rw [List.mem_cons, not_or] at h
      rw [escapeValue, List.flatMap_cons]
      change decodeValue (escapeValueChar c ++ escapeValue cs) = _
      rcases escapeValueChar_cases c with ⟨d, ds, hescape, hnames⟩ | ⟨hampersand, _, hescape⟩
      · rw [hescape, List.cons_append, decodeValue_reference (hnames.read? true _)]
        exact congrArg (c :: ·) (ih h.2)
      · rw [hescape, List.singleton_append, decodeValue_plain hampersand (Ne.symm h.1), ih h.2]

/-- The characters of escapes. -/
def escapeChars : List Char :=
  ['&', 'a', 'm', 'p', 'l', 't', 'g', 'q', 'u', 'o', ';']

theorem mem_escapeChars {c : Char} {cs : List Char} (h : cs.all escapeChars.contains = true)
    (hc : c ∈ cs) : c ∈ escapeChars :=
  List.contains_iff_mem.1 (List.all_eq_true.1 h c hc)

/-- A character of an escape is one of a few, or the character itself. -/
theorem mem_escapeTextChar {c d : Char} (h : c ∈ escapeTextChar d) :
    c ∈ escapeChars ∨ c = d ∧ c ≠ '<' := by
  unfold escapeTextChar at h
  split at h
  · exact .inl (mem_escapeChars (by decide) h)
  split at h
  · exact .inl (mem_escapeChars (by decide) h)
  split at h
  · exact .inl (mem_escapeChars (by decide) h)
  · rename_i hless _
    exact .inr (by simp_all)

theorem mem_escapeValueChar {c d : Char} (h : c ∈ escapeValueChar d) :
    c ∈ escapeChars ∨ c = d ∧ c ≠ '"' := by
  unfold escapeValueChar at h
  split at h
  · exact .inl (mem_escapeChars (by decide) h)
  · rename_i hquote
    rcases mem_escapeTextChar h with hescape | ⟨rfl, _⟩
    · exact .inl hescape
    · exact .inr ⟨rfl, hquote⟩

/-- No opening bracket is written of a text. -/
theorem mem_escapeText {c : Char} {cs : List Char} (h : c ∈ escapeText cs) :
    c ∈ escapeChars ∨ c ∈ cs ∧ c ≠ '<' := by
  rcases List.mem_flatMap.1 h with ⟨d, hd, hc⟩
  rcases mem_escapeTextChar hc with hescape | ⟨rfl, hne⟩
  · exact .inl hescape
  · exact .inr ⟨hd, hne⟩

/-- No quote is written of a value. -/
theorem mem_escapeValue {c : Char} {cs : List Char} (h : c ∈ escapeValue cs) :
    c ∈ escapeChars ∨ c ∈ cs ∧ c ≠ '"' := by
  rcases List.mem_flatMap.1 h with ⟨d, hd, hc⟩
  rcases mem_escapeValueChar hc with hescape | ⟨rfl, hne⟩
  · exact .inl hescape
  · exact .inr ⟨hd, hne⟩

end Html

end SoleRoot

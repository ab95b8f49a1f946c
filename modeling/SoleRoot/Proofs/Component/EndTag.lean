import Mathlib.Data.List.Infix
import SoleRoot.Proofs.Component.Script

/-!
# End Tags in Script Blocks

Where a script block ends for a reader of markup.

A script is read at two levels. To the script's reader a literal ends at its closing
quote; to a reader of markup the script ends at the first `</script`, wherever that
stands and in whatever letters. A literal is written for the first of them only. The
characters of an end tag are none that an escape is written for, so an end tag in a
module stands in the literal as it is.

That is also the only way for one to get there. An end tag cannot run over a character
that it does not contain, such as the quotes around a literal, so one that stands in a
block stands in one of the texts between such characters. Of these the names and the
words of the script have no opening bracket, and a literal has an end tag only where
its module has one.

So the block ends where it should exactly if no module contains an end tag. If one
does, the rest of the script is lost: what is left has fewer lines than the block, and
so cannot be read as the same imports.

## Main definitions

* `StartsEndTag`, `HasEndTag`: End tags in a text.
* `EndsOnce`: A text whose only end tag is its own end.
* `uptoEndTag`: What a reader of markup takes for the script.

## Theorems

* `hasEndTag_append_cons`: End tags do not run over other characters.
* `hasEndTag_flatMap_scriptLiteralChar`: A literal has the end tags of its module.
* `endsOnce_iff`: Where the block ends, for every registry.
-/

namespace SoleRoot

namespace Script

/-- How the end tag of a script begins, in small letters. -/
def endMark : List Char :=
  ['<', '/', 's', 'c', 'r', 'i', 'p', 't']

/-- Whether a text begins with the end tag of a script, in letters of any case. -/
def StartsEndTag (cs : List Char) : Prop :=
  endMark <+: cs.map Char.toLower

instance (cs : List Char) : Decidable (StartsEndTag cs) :=
  inferInstanceAs (Decidable (_ <+: _))

/-- Whether the end tag of a script begins somewhere in a text. -/
def HasEndTag (cs : List Char) : Prop :=
  endMark <:+: cs.map Char.toLower

instance (cs : List Char) : Decidable (HasEndTag cs) :=
  inferInstanceAs (Decidable (_ <:+: _))

/-- Whether a text ends with the end tag of a script and has no other. -/
def EndsOnce (cs : List Char) : Prop :=
  "</script>".toList <:+ cs ∧
    ∀ suffix, suffix <:+ cs → StartsEndTag suffix → suffix = "</script>".toList

/-- A text up to the first end tag of a script, which is put in full. -/
def uptoEndTag : List Char → List Char
  | [] => []
  | c :: cs => if StartsEndTag (c :: cs) then "</script>".toList else c :: uptoEndTag cs

section EndTags

variable {a b cs : List Char} {x : Char}

theorem startsEndTag_append_cons (hx : x.toLower ∉ endMark) :
    StartsEndTag (a ++ x :: b) ↔ StartsEndTag a := by
  unfold StartsEndTag
  rw [List.map_append, List.map_cons, Text.prefix_append_cons hx]

/-- End tags do not run over characters that they do not contain. -/
theorem hasEndTag_append_cons (hx : x.toLower ∉ endMark) :
    HasEndTag (a ++ x :: b) ↔ HasEndTag a ∨ HasEndTag b := by
  unfold HasEndTag
  rw [List.map_append, List.map_cons, Text.infix_append_cons hx]

theorem hasEndTag_cons_iff : HasEndTag (x :: cs) ↔ StartsEndTag (x :: cs) ∨ HasEndTag cs := by
  unfold HasEndTag StartsEndTag
  rw [List.map_cons, List.infix_cons_iff]

theorem hasEndTag_cons (hx : x.toLower ∉ endMark) : HasEndTag (x :: cs) ↔ HasEndTag cs := by
  have h := hasEndTag_append_cons (a := []) (b := cs) hx
  rw [List.nil_append] at h
  exact h.trans (or_iff_right (by decide))

theorem hasEndTag_iff_exists : HasEndTag cs ↔ ∃ s, s <:+ cs ∧ StartsEndTag s := by
  induction cs with
  | nil => simp [HasEndTag, StartsEndTag]
  | cons c cs ih =>
      rw [hasEndTag_cons_iff, ih]
      constructor
      · rintro (hstart | ⟨s, hs, hstart⟩)
        · exact ⟨c :: cs, List.suffix_rfl, hstart⟩
        · exact ⟨s, hs.trans (List.suffix_cons c cs), hstart⟩
      · rintro ⟨s, hs, hstart⟩
        rcases List.suffix_cons_iff.1 hs with rfl | hs
        · exact .inl hstart
        · exact .inr ⟨s, hs, hstart⟩

theorem eq_of_toLower (h : x.toLower = '<') : x = '<' := by
  unfold Char.toLower at h
  split at h
  · rename_i hupper
    have hsum : (x.val + ('a'.val - 'A'.val)).toNat = '<'.val.toNat :=
      congrArg (fun c => c.val.toNat) h
    rw [ge_iff_le, UInt32.le_iff_toNat_le, UInt32.le_iff_toNat_le] at hupper
    rw [UInt32.toNat_add] at hsum
    simp at hsum hupper
    omega
  · exact h

/-- A text without an opening bracket adds no end tag in front of another. -/
theorem hasEndTag_append (ha : '<' ∉ a) : HasEndTag (a ++ b) ↔ HasEndTag b := by
  induction a with
  | nil => rw [List.nil_append]
  | cons c a ih =>
      rw [List.mem_cons, not_or] at ha
      rw [List.cons_append, hasEndTag_cons_iff, ih ha.2, or_iff_right]
      -- What begins here begins with the character, and that is no bracket.
      intro h
      unfold StartsEndTag endMark at h
      rw [List.map_cons, List.cons_prefix_cons] at h
      exact ha.1 (eq_of_toLower h.1.symm).symm

theorem not_hasEndTag (ha : '<' ∉ a) : ¬ HasEndTag a := by
  have h := hasEndTag_append (b := []) ha
  rw [List.append_nil] at h
  exact fun hmark => absurd (h.1 hmark) (by decide)

/-- Texts with a character between them have the end tags of each. -/
theorem hasEndTag_intercalate (hx : x.toLower ∉ endMark) (ls : List (List Char)) :
    HasEndTag ([x].intercalate ls) ↔ ∃ l ∈ ls, HasEndTag l := by
  induction ls with
  | nil => simp [HasEndTag, endMark]
  | cons l ls ih =>
      by_cases hne : ls = []
      · rw [hne, List.intercalate_singleton]
        simp
      · rw [List.intercalate_cons_of_ne_nil hne, List.append_assoc, List.singleton_append,
          hasEndTag_append_cons hx, ih]
        simp

end EndTags

section Literals

/-- An escape begins with a backslash, has no opening bracket, and is written for a
    character that no end tag has. -/
theorem escaped_cases (c : Char) :
    (∃ e, scriptLiteralChar c = '\\' :: e ∧ '<' ∉ e ∧ c.toLower ∉ endMark) ∨
      scriptLiteralChar c = [c] := by
  unfold scriptLiteralChar
  split
  · rename_i h
    exact .inl ⟨['\\'], rfl, by decide, h ▸ by decide⟩
  split
  · rename_i h
    exact .inl ⟨['\''], rfl, by decide, h ▸ by decide⟩
  split
  · rename_i h
    exact .inl ⟨['n'], rfl, by decide, h ▸ by decide⟩
  split
  · rename_i h
    exact .inl ⟨['r'], rfl, by decide, h ▸ by decide⟩
  split
  · rename_i h
    exact .inl ⟨['u', '2', '0', '2', '8'], rfl, by decide, h ▸ by decide⟩
  split
  · rename_i h
    exact .inl ⟨['u', '2', '0', '2', '9'], rfl, by decide, h ▸ by decide⟩
  · exact .inr rfl

/-- What begins a module begins what is written of it, if it has no characters that
    are written otherwise. -/
theorem prefix_flatMap_scriptLiteralChar {mark : List Char} (hmark : ∀ x ∈ mark, x ∈ endMark)
    (cs : List Char) :
    mark <+: (cs.flatMap scriptLiteralChar).map Char.toLower ↔ mark <+: cs.map Char.toLower := by
  induction cs generalizing mark with
  | nil => rfl
  | cons c cs ih =>
      rw [List.flatMap_cons, List.map_append, List.map_cons]
      cases mark with
      | nil => simp
      | cons x mark =>
          have hx := hmark x (List.mem_cons_self ..)
          rcases escaped_cases c with ⟨e, he, _, hc⟩ | hc
          · -- Neither of the two characters is one of an end tag.
            rw [he, List.map_cons, List.cons_append, List.cons_prefix_cons, List.cons_prefix_cons]
            constructor
            · rintro ⟨rfl, _⟩
              exact absurd hx (by decide)
            · rintro ⟨rfl, _⟩
              exact absurd hx hc
          · rw [hc, List.map_cons, List.map_nil, List.singleton_append, List.cons_prefix_cons,
              List.cons_prefix_cons, ih fun y hy => hmark y (List.mem_cons_of_mem x hy)]

/-- A literal has the end tags of its module. -/
theorem hasEndTag_flatMap_scriptLiteralChar (cs : List Char) :
    HasEndTag (cs.flatMap scriptLiteralChar) ↔ HasEndTag cs := by
  induction cs with
  | nil => rfl
  | cons c cs ih =>
      rcases escaped_cases c with ⟨e, he, hbracket, hc⟩ | hc
      · rw [List.flatMap_cons, he, List.cons_append, hasEndTag_cons (by decide),
          hasEndTag_append hbracket, ih, hasEndTag_cons hc]
      · have hstart : StartsEndTag ((c :: cs).flatMap scriptLiteralChar) ↔ StartsEndTag (c :: cs) :=
          prefix_flatMap_scriptLiteralChar (fun _ hx => hx) (c :: cs)
        rw [List.flatMap_cons, hc, List.singleton_append] at hstart ⊢
        rw [hasEndTag_cons_iff, hasEndTag_cons_iff, ih]
        exact or_congr_left hstart

theorem hasEndTag_text {i : Import} (h : IsName i.name) :
    HasEndTag i.text.toList ↔ HasEndTag i.module.toList := by
  have htext : i.text.toList = ("import ".toList ++ i.name.toList ++ " from ".toList) ++
      '\'' :: (i.module.toList.flatMap scriptLiteralChar ++ '\'' :: ";".toList) := by
    unfold Import.text
    simp only [String.toList_append, toList_scriptLiteral, List.append_assoc, List.cons_append,
      List.nil_append]
  -- In front of the literal there is no bracket.
  have hbefore : '<' ∉ "import ".toList ++ i.name.toList ++ " from ".toList := by
    simp only [List.mem_append, not_or]
    exact ⟨⟨by decide, not_mem_of_isName h (by decide)⟩, by decide⟩
  rw [htext, hasEndTag_append_cons (by decide), hasEndTag_append_cons (by decide),
    or_iff_right (not_hasEndTag hbefore), or_iff_left (not_hasEndTag (by decide)),
    hasEndTag_flatMap_scriptLiteralChar]

end Literals

section Blocks

/-- The lines of a block before its closing tag, as one text. -/
def body (r : Registry) : List Char :=
  ['\n'].intercalate (openLines r)

theorem intercalate_lines (r : Registry) :
    ['\n'].intercalate (r.lines.map String.toList) = body r ++ '\n' :: "</script>".toList := by
  rw [map_toList_lines, body, openLines, intercalate_append_singleton, ← List.cons_append,
    intercalate_append_singleton, List.flatMap_append, List.flatMap_singleton]
  simp only [List.append_assoc, List.singleton_append]

/-- The end tags before a block's own are those of its modules. -/
theorem hasEndTag_body {r : Registry} (hne : r.entries ≠ [])
    (hnames : ∀ i ∈ r.entries, IsName i.name) :
    HasEndTag (body r) ↔ ∃ i ∈ r.entries, HasEndTag i.module.toList := by
  have hexport : ¬ HasEndTag (exportText r.names).toList :=
    not_hasEndTag (not_mem_exportText (names_ne_nil hne) (fun _ => isName_of_mem_names hnames)
      (by decide) (by decide) (by decide) (by decide) (by decide))
  rw [body, openLines, hasEndTag_intercalate (by decide)]
  constructor
  · rintro ⟨l, hl, htag⟩
    simp only [List.mem_cons, List.mem_append, List.mem_map, List.not_mem_nil, or_false] at hl
    -- It is no tag of the block and not its last line, so it is that of an import.
    rcases hl with hl | ⟨i, hi, hl⟩ | hl
    · rw [hl] at htag
      exact absurd htag (by decide +kernel)
    · rw [← hl] at htag
      exact ⟨i, hi, (hasEndTag_text (hnames i hi)).1 htag⟩
    · rw [hl] at htag
      exact absurd htag hexport
  · rintro ⟨i, hi, htag⟩
    refine ⟨i.text.toList, ?_, (hasEndTag_text (hnames i hi)).2 htag⟩
    exact List.mem_cons_of_mem _ (List.mem_append_left _ (List.mem_map.2 ⟨i, hi, rfl⟩))

end Blocks

section Cuts

/-- Only the last line of a text is all of it that comes behind its last line feed. -/
theorem suffix_append_cons {α : Type} {x : α} {cs last s : List α} (h : s <:+ cs ++ x :: last) :
    s <:+ last ∨ ∃ s', s' <:+ cs ∧ s = s' ++ x :: last := by
  rcases List.suffix_or_suffix_of_suffix h (List.suffix_append cs (x :: last)) with hs | hs
  · rcases List.suffix_cons_iff.1 hs with rfl | hs
    · exact .inr ⟨[], List.nil_suffix, rfl⟩
    · exact .inl hs
  · rcases hs with ⟨s', rfl⟩
    exact .inr ⟨s', ((List.suffix_append_inj_of_length_eq rfl).1 h).1, rfl⟩

/-- A text ends once if there is no end tag before its last line. -/
theorem endsOnce_append {cs : List Char} :
    EndsOnce (cs ++ '\n' :: "</script>".toList) ↔ ¬ HasEndTag cs := by
  have hlast : "</script>".toList <:+ cs ++ '\n' :: "</script>".toList :=
    (List.suffix_cons '\n' _).trans (List.suffix_append cs _)
  constructor
  · rintro ⟨_, honly⟩ htag
    -- The end tag and all behind it would have to be as long as the end alone.
    rcases hasEndTag_iff_exists.1 htag with ⟨s, hs, hstart⟩
    have hsuffix : s ++ '\n' :: "</script>".toList <:+ cs ++ '\n' :: "</script>".toList := by
      rcases hs with ⟨before, rfl⟩
      exact ⟨before, (List.append_assoc ..).symm⟩
    have heq := honly _ hsuffix ((startsEndTag_append_cons (by decide)).2 hstart)
    have hlength := congrArg List.length heq
    rw [List.length_append, List.length_cons] at hlength
    omega
  · intro hnone
    refine ⟨hlast, fun s hs hstart => ?_⟩
    -- Either it lies in the last line, or it begins before and goes on to the end.
    rcases suffix_append_cons hs with hs | ⟨s', hs', rfl⟩
    · have hcons : "</script>".toList = '<' :: "/script>".toList := by decide
      rw [hcons] at hs ⊢
      rcases List.suffix_cons_iff.1 hs with heq | hs
      · exact heq
      · exact absurd (hasEndTag_iff_exists.2 ⟨s, hs, hstart⟩) (not_hasEndTag (by decide))
    · rw [startsEndTag_append_cons (by decide)] at hstart
      exact absurd (hasEndTag_iff_exists.2 ⟨s', hs', hstart⟩) hnone

/-- A text whose only end tag is its end is taken in full. -/
theorem uptoEndTag_of_endsOnce {cs : List Char}
    (h : ∀ suffix, suffix <:+ cs → StartsEndTag suffix → suffix = "</script>".toList) :
    uptoEndTag cs = cs := by
  induction cs with
  | nil => rfl
  | cons c cs ih =>
      rw [uptoEndTag]
      by_cases hstart : StartsEndTag (c :: cs)
      · rw [if_pos hstart]
        exact (h _ List.suffix_rfl hstart).symm
      · rw [if_neg hstart, ih fun s hs => h s (hs.trans (List.suffix_cons c cs))]

/-- An end tag before the last line cuts off some of the lines. -/
theorem exists_of_hasEndTag {cs : List Char} (h : HasEndTag cs) (rest : List Char) :
    ∃ before, before <+: cs ∧ uptoEndTag (cs ++ rest) = before ++ "</script>".toList := by
  induction cs with
  | nil => exact absurd h (by decide)
  | cons c cs ih =>
      rw [List.cons_append, uptoEndTag]
      by_cases hstart : StartsEndTag (c :: (cs ++ rest))
      · rw [if_pos hstart]
        exact ⟨[], List.nil_prefix, rfl⟩
      · -- It does not begin here, so it begins further on.
        have hmore : HasEndTag cs := by
          refine (hasEndTag_cons_iff.1 h).resolve_left fun hstart' => hstart ?_
          unfold StartsEndTag at hstart' ⊢
          rw [← List.cons_append, List.map_append]
          exact hstart'.trans (List.prefix_append ..)
        rcases ih hmore with ⟨before, hprefix, heq⟩
        rw [if_neg hstart, heq]
        exact ⟨c :: before, (List.prefix_cons_inj c).2 hprefix, rfl⟩

end Cuts

section Lines

theorem length_of_readLines? {lines : List (List Char)} {is : List Import} {names : List String}
    (h : readLines? lines = some (is, names)) : lines.length = is.length + 2 := by
  induction lines generalizing is names with
  | nil => simp [readLines?] at h
  | cons line lines ih =>
      by_cases hlength : 2 ≤ lines.length
      · rw [readLines?_cons line hlength, Option.bind_eq_some_iff] at h
        rcases h with ⟨i, _, h⟩
        rcases Option.map_eq_some_iff.1 h with ⟨⟨is', names'⟩, hread, heq⟩
        simp only [Prod.mk.injEq] at heq
        rw [List.length_cons, ih hread, ← heq.1, List.length_cons]
      · -- The last two lines hold no imports.
        rcases lines with _ | ⟨close, _ | ⟨other, lines⟩⟩
        · simp [readLines?] at h
        · rw [readLines?] at h
          split at h
          · rcases Option.map_eq_some_iff.1 h with ⟨names', _, heq⟩
            simp only [Prod.mk.injEq] at heq
            rw [← heq.1]
            rfl
          · simp at h
        · simp only [List.length_cons] at hlength
          omega

theorem length_splitOn {α : Type} [BEq α] (a : α) (l : List α) :
    (l.splitOn a).length = l.count a + 1 := by
  induction l with
  | nil => rfl
  | cons x l ih =>
      rw [List.splitOn_cons_eq_if_modifyHead, List.count_cons]
      split
      · rw [List.length_cons, ih]
      · rw [List.length_modifyHead, ih, Nat.add_zero]

/-- As many lines are read as there are. -/
theorem count_of_readScript? {block : List Char} {is : List Import} {names : List String}
    (h : readScript? block = some (is, names)) : block.count '\n' = is.length + 2 := by
  have hcount := length_splitOn '\n' block
  unfold readScript? at h
  split at h
  · simp at h
  · rename_i first lines hlines
    split at h
    -- The opening tag is a line, and so are all that are read behind it.
    · have hlength := length_of_readLines? h
      rw [hlines, List.length_cons] at hcount
      omega
    · simp at h

end Lines

section Ends

/-- The imports of a block are read up to the first end tag exactly if there is none
    before the last line. -/
theorem readScript?_uptoEndTag_iff {r : Registry} (hne : r.entries ≠ [])
    (hnames : ∀ i ∈ r.entries, IsName i.name) :
    readScript? (uptoEndTag (body r ++ '\n' :: "</script>".toList)) = some (r.entries, r.names) ↔
      ¬ HasEndTag (body r) := by
  have hread : readScript? (body r ++ '\n' :: "</script>".toList) = some (r.entries, r.names) := by
    rw [← intercalate_lines]
    exact readScript?_lines hne hnames (splitOn_lines hne hnames)
  constructor
  · intro h htag
    rcases exists_of_hasEndTag htag ('\n' :: "</script>".toList) with ⟨before, hprefix, heq⟩
    have hcut := count_of_readScript? h
    have hall := count_of_readScript? hread
    have hclose : "</script>".toList.count '\n' = 0 := by decide
    have hle := hprefix.sublist.count_le '\n'
    -- The line feed before the block's own end tag is not among what is left.
    rw [heq, List.count_append] at hcut
    rw [List.count_append, List.count_cons_self] at hall
    omega
  · intro hnone
    rw [uptoEndTag_of_endsOnce (endsOnce_append.2 hnone).2]
    exact hread

/-- Where a block ends: it is closed by its own end tag, and read in full by those who
    stop at the first, exactly if no module contains an end tag. -/
theorem endsOnce_iff {r : Registry} (hne : r.entries ≠ [])
    (hnames : ∀ i ∈ r.entries, IsName i.name) :
    ∃ block, r.scriptBlock? = some block ∧
      (∀ markup, componentSource markup (some r) = templateBlock markup ++ "\n" ++ block) ∧
      (EndsOnce ("\n" ++ block).toList ↔ ∀ i ∈ r.entries, ¬ HasEndTag i.module.toList) ∧
      (readScript? (uptoEndTag block.toList) = some (r.entries, r.names) ↔
        ∀ i ∈ r.entries, ¬ HasEndTag i.module.toList) := by
  rcases toList_scriptBlock hne with ⟨block, hblock, hlines⟩
  rw [intercalate_lines] at hlines
  have hmodules : ¬ HasEndTag (body r) ↔ ∀ i ∈ r.entries, ¬ HasEndTag i.module.toList := by
    rw [hasEndTag_body hne hnames]
    simp only [not_exists, not_and]
  refine ⟨block, hblock, ?_, ?_, ?_⟩
  · intro markup
    rw [componentSource, Option.bind_some, hblock]
  · have hfeed : "\n".toList = ['\n'] := by decide
    rw [String.toList_append, hfeed, hlines, ← List.append_assoc, endsOnce_append,
      List.singleton_append, hasEndTag_cons (by decide), hmodules]
  · rw [hlines, readScript?_uptoEndTag_iff hne hnames, hmodules]

theorem endsOnce_iff_marked :
    let r : Registry := ⟨[⟨"A", "a'</scrip"⟩, ⟨"B", "</SCRIPT>"⟩]⟩
    r.entries ≠ [] ∧ (∀ i ∈ r.entries, IsName i.name) ∧
      ∃ block, r.scriptBlock? = some block ∧
        (∀ markup, componentSource markup (some r) = templateBlock markup ++ "\n" ++ block) ∧
        (EndsOnce ("\n" ++ block).toList ↔ ∀ i ∈ r.entries, ¬ HasEndTag i.module.toList) ∧
        (readScript? (uptoEndTag block.toList) = some (r.entries, r.names) ↔
          ∀ i ∈ r.entries, ¬ HasEndTag i.module.toList) := by
  intro r
  have hne : r.entries ≠ [] := by decide
  have hnames : ∀ i ∈ r.entries, IsName i.name := by decide
  exact ⟨hne, hnames, endsOnce_iff hne hnames⟩

/-- The end tag in a module ends the block, and neither the import nor the registration
    is read. -/
theorem not_endsOnce :
    let r : Registry := ⟨[⟨"A", "</script>"⟩]⟩
    r.entries ≠ [] ∧ (∀ i ∈ r.entries, IsName i.name) ∧
      ∃ block, r.scriptBlock? = some block ∧ ¬ EndsOnce ("\n" ++ block).toList ∧
        readScript? (uptoEndTag block.toList) = none := by
  intro r
  have hblock : r.scriptBlock? = some ("<script>\nimport A from '</script>';\n" ++
      "export default \x7b components: \x7b A \x7d \x7d;\n</script>") := by decide +kernel
  refine ⟨by decide, by decide, _, hblock, ?_, by decide +kernel⟩
  rintro ⟨_, honly⟩
  have hearly := honly ("</script>';\nexport default \x7b components: \x7b A \x7d \x7d;\n" ++
    "</script>").toList ⟨"\n<script>\nimport A from '".toList, by decide +kernel⟩
    (by decide +kernel)
  exact absurd hearly (by decide +kernel)

end Ends

end Script

end SoleRoot

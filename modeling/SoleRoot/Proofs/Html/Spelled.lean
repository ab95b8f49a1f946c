import Mathlib.Data.List.Infix
import Mathlib.Data.List.TakeWhile
import SoleRoot.Html.Token
import SoleRoot.Proofs.Html.Escaping

/-!
# Pieces of Written HTML

What is cut from the front of a text that the printer has written.

A tag is cut as a whole if its name is one and the names of its attributes are.
Names are put in lower case, so the token is the tag with its names `lowered`. An
attribute is dropped if its name came before, in any letter case.

A text is cut in several pieces: each escape is one, and each run of characters
between two escapes. A comment is one piece if nothing in it closes it.

## Main definitions

* `lowered`: A name as a token has it.
* `Writable`: What is asked of a tag.
* `Closeable`: What is asked of a comment's content.
* `tokenOf`: The token of a tag.

## Theorems

* `next_startTag`, `next_endTag`: A tag is cut as a whole.
* `next_comment`: A comment is cut as a whole.
* `next_escape`, `next_run`: The pieces of a text.
* `not_mem_startTag`, `not_mem_endTag`: No carriage return is written of a tag.
-/

namespace SoleRoot

namespace Html

/-- A name as a token has it. -/
def lowered (name : String) : String :=
  nameOf name.toList

/-- Whether a text is read as the name of a tag. -/
def isTagName : List Char → Bool
  | [] => false
  | c :: cs => c.isAlpha && (c :: cs).all isTagNameChar

/-- Whether a text is read as the name of an attribute. -/
def isAttributeName : List Char → Bool
  | [] => false
  | c :: cs => isTagNameChar c && cs.all isAttributeNameChar

/-- Whether a character is read as it is. Null characters and carriage returns
    are not. -/
def isSteady (c : Char) : Bool :=
  c ≠ '\x00' && c ≠ '\r'

/-- Whether a tag is read as it is written, but for the case of letters. -/
structure Writable (t : Tag) : Prop where
  name : isTagName t.name.toList = true
  attributes : ∀ a ∈ t.attributes,
    isAttributeName a.name.toList = true ∧ a.value.toList.all isSteady = true

theorem writable_iff {t : Tag} :
    Writable t ↔ isTagName t.name.toList = true ∧
      ∀ a ∈ t.attributes,
        isAttributeName a.name.toList = true ∧ a.value.toList.all isSteady = true :=
  ⟨fun h => ⟨h.name, h.attributes⟩, fun h => ⟨h.1, h.2⟩⟩

instance (t : Tag) : Decidable (Writable t) :=
  decidable_of_iff _ writable_iff.symm

/-- An attribute behind those that were read before it, unless one of them has
    its name. -/
def withAttribute (seen : List (String × String)) (a : String × String) : List (String × String) :=
  if seen.any (·.1 == a.1) then seen else seen ++ [a]

/-- The token of a tag. -/
def tokenOf (t : Tag) : TagToken where
  name := lowered t.name
  attributes := (t.attributes.map fun a => (lowered a.name, a.value)).foldl withAttribute []

/-- Whether a comment with this content ends behind it. -/
structure Closeable (content : List Char) : Prop where
  steady : content.all isSteady = true
  mark : ¬ ['-', '-', '>'] <:+: content
  other : ¬ ['-', '-', '!', '>'] <:+: content
  bracket : ¬ ['>'] <+: content
  hyphen : ¬ ['-', '>'] <+: content

theorem closeable_iff {content : List Char} :
    Closeable content ↔ content.all isSteady = true ∧ ¬ ['-', '-', '>'] <:+: content ∧
      ¬ ['-', '-', '!', '>'] <:+: content ∧ ¬ ['>'] <+: content ∧ ¬ ['-', '>'] <+: content :=
  ⟨fun h => ⟨h.steady, h.mark, h.other, h.bracket, h.hyphen⟩,
    fun h => ⟨h.1, h.2.1, h.2.2.1, h.2.2.2.1, h.2.2.2.2⟩⟩

instance (content : List Char) : Decidable (Closeable content) :=
  decidable_of_iff _ closeable_iff.symm

/-- A character of a name neither parts names nor ends a tag. -/
theorem not_isHtmlSpace_of_isTagNameChar {c : Char} (h : isTagNameChar c = true) :
    Text.isHtmlSpace c = false ∧ c ≠ '/' ∧ c ≠ '>' := by
  simpa [isTagNameChar, and_assoc] using h

/-- A text that is read as it is has neither null characters nor carriage returns. -/
theorem not_mem_of_isSteady {cs : List Char} (h : cs.all isSteady = true) :
    '\x00' ∉ cs ∧ '\r' ∉ cs := by
  rw [List.all_eq_true] at h
  exact ⟨fun hmem => absurd (h _ hmem) (by decide), fun hmem => absurd (h _ hmem) (by decide)⟩

/-- A text without either is read as it is. -/
theorem isSteady_of_not_mem {cs : List Char} (hnull : '\x00' ∉ cs) (hreturn : '\r' ∉ cs) :
    cs.all isSteady = true := by
  rw [List.all_eq_true]
  intro c hc
  have hne : c ≠ '\x00' := fun h => hnull (h ▸ hc)
  have hne' : c ≠ '\r' := fun h => hreturn (h ▸ hc)
  simp [isSteady, hne, hne']

section Attributes

variable {seen : List (String × String)} {cs rest : List Char}

/-- A value that was written is cut at its quotes. -/
theorem readValue?_escapeValue (value rest : List Char) :
    readValue? ('"' :: escapeValue value ++ '"' :: rest) = some (escapeValue value, rest) := by
  have hquote : '"' ∉ escapeValue value := by
    intro h
    rcases mem_escapeValue h with hescape | ⟨_, hne⟩
    · exact absurd hescape (by decide)
    · exact hne rfl
  have hspace : Text.isHtmlSpace '"' = false := by decide
  rw [readValue?, List.cons_append, List.dropWhile_cons_of_neg (by rw [hspace]; decide)]
  simp only [true_or, if_true]
  rw [Text.dropWhile_ne_append hquote, Text.takeWhile_ne_append hquote]

/-- An attribute that was written is read with its value decoded. -/
theorem readAttribute?_written {c : Char} {cs value : List Char}
    (hname : isAttributeName (c :: cs) = true) (hvalue : '\x00' ∉ value) (rest : List Char) :
    readAttribute? c (cs ++ '=' :: ('"' :: escapeValue value ++ '"' :: rest)) =
      some ((nameOf (c :: cs), String.ofList value), rest) := by
  have hchars : ∀ d ∈ cs, isAttributeNameChar d = true := by
    rw [isAttributeName, Bool.and_eq_true, List.all_eq_true] at hname
    exact hname.2
  have hstop : ∀ d ∈ ('=' :: ('"' :: escapeValue value ++ '"' :: rest)).head?,
      isAttributeNameChar d = false := Text.forall_mem_head?_cons.2 (by decide)
  have hspace : Text.isHtmlSpace '=' = false := by decide
  have hstrip : Text.strip? ['='] ('=' :: ('"' :: escapeValue value ++ '"' :: rest)) =
      some ('"' :: escapeValue value ++ '"' :: rest) := Text.strip?_eq_some_iff.2 rfl
  rw [readAttribute?, Text.takeWhile_append_stop hchars hstop,
    Text.dropWhile_append_stop hchars hstop,
    List.dropWhile_cons_of_neg (by rw [hspace]; decide), hstrip]
  simp only [readValue?_escapeValue, Option.map_some, decodeValue_escapeValue hvalue]

/-- At the closing bracket the attributes are complete. -/
theorem readAttributes?_close (seen : List (String × String)) (rest : List Char) :
    readAttributes? seen ('>' :: rest) = some (seen, false, rest) := by
  have hspace : Text.isHtmlSpace '>' = false := by decide
  have hdrop : ('>' :: rest).dropWhile Text.isHtmlSpace = '>' :: rest :=
    List.dropWhile_cons_of_neg (by rw [hspace]; decide)
  rw [readAttributes?]
  split
  · rename_i hnil
    rw [hdrop] at hnil
    simp at hnil
  · rename_i c after hcons
    rw [hdrop, List.cons.injEq] at hcons
    rw [if_pos hcons.1.symm, ← hcons.2]

/-- Behind a space another attribute is read. -/
theorem readAttributes?_space {c : Char} (hc : isTagNameChar c = true) {a : String × String}
    (ha : readAttribute? c cs = some (a, rest)) :
    readAttributes? seen (' ' :: c :: cs) =
      readAttributes? (if seen.any (·.1 == a.1) then seen else seen ++ [a]) rest := by
  rcases not_isHtmlSpace_of_isTagNameChar hc with ⟨hspace, hslash, hbracket⟩
  have hdrop : (' ' :: c :: cs).dropWhile Text.isHtmlSpace = c :: cs := by
    rw [List.dropWhile_cons_of_pos (by decide),
      List.dropWhile_cons_of_neg (by rw [hspace]; decide)]
  rw [readAttributes?]
  split
  · rename_i hnil
    rw [hdrop] at hnil
    simp at hnil
  · rename_i d after hcons
    rw [hdrop, List.cons.injEq] at hcons
    rcases hcons with ⟨rfl, rfl⟩
    rw [if_neg hbracket, if_neg hslash]
    split
    · rename_i hnone
      rw [ha] at hnone
      simp at hnone
    · rename_i found after hsome
      rcases Prod.mk.inj (Option.some.inj (ha.symm.trans hsome)) with ⟨rfl, rfl⟩
      rfl

/-- The attributes that were written are read in their order. -/
theorem readAttributes?_written {attributes : List SoleRoot.Attribute}
    (hattributes : ∀ a ∈ attributes,
      isAttributeName a.name.toList = true ∧ a.value.toList.all isSteady = true)
    (seen : List (String × String)) (rest : List Char) :
    readAttributes? seen (attributes.flatMap writeAttribute ++ '>' :: rest) =
      some ((attributes.map fun a => (lowered a.name, a.value)).foldl withAttribute seen, false,
        rest) := by
  induction attributes generalizing seen with
  | nil => rw [List.flatMap_nil, List.nil_append, readAttributes?_close, List.map_nil,
      List.foldl_nil]
  | cons a attributes ih =>
      rcases List.forall_mem_cons.1 hattributes with ⟨⟨hname, hsteady⟩, hattributes⟩
      cases hcs : a.name.toList with
      | nil => simp [hcs, isAttributeName] at hname
      | cons c cs =>
          rw [hcs] at hname
          have hc : isTagNameChar c = true := by
            rw [isAttributeName, Bool.and_eq_true] at hname
            exact hname.1
          have hread := readAttribute?_written hname (not_mem_of_isSteady hsteady).1
            (attributes.flatMap writeAttribute ++ '>' :: rest)
          rw [← hcs, String.ofList_toList] at hread
          -- A space, the name, and the value in its quotes, in front of the other attributes.
          have hwrite : (a :: attributes).flatMap writeAttribute ++ '>' :: rest =
              ' ' :: c :: (cs ++ '=' :: ('"' :: escapeValue a.value.toList ++ '"' ::
                (attributes.flatMap writeAttribute ++ '>' :: rest))) := by
            simp [writeAttribute, hcs]
          rw [hwrite, readAttributes?_space hc hread, ih hattributes, List.map_cons,
            List.foldl_cons]
          rfl

/-- Attributes with different names are all kept. -/
theorem foldl_withAttribute {attributes : List (String × String)}
    (h : ((seen ++ attributes).map Prod.fst).Nodup) :
    attributes.foldl withAttribute seen = seen ++ attributes := by
  induction attributes generalizing seen with
  | nil => rw [List.foldl_nil, List.append_nil]
  | cons a attributes ih =>
      -- None of those before it has its name, so it is not left out.
      have hunseen : ¬ seen.any (·.1 == a.1) = true := by
        intro hany
        rcases List.any_eq_true.1 hany with ⟨b, hb, hname⟩
        rw [List.map_append, List.nodup_append] at h
        exact h.2.2 b.1 (List.mem_map_of_mem hb) a.1 List.mem_cons_self (eq_of_beq hname)
      have happend : seen ++ a :: attributes = seen ++ [a] ++ attributes := by
        rw [List.append_assoc, List.singleton_append]
      rw [List.foldl_cons, withAttribute, if_neg hunseen, ih (by rwa [← happend]), happend]

end Attributes

section Tags

variable {t : Tag}

/-- The name of a tag begins with a letter. -/
theorem exists_name (h : isTagName t.name.toList = true) :
    ∃ c cs, t.name.toList = c :: cs ∧ c.isAlpha = true ∧ ∀ d ∈ c :: cs, isTagNameChar d = true := by
  cases hcs : t.name.toList with
  | nil => simp [hcs, isTagName] at h
  | cons c cs =>
      rw [hcs, isTagName, Bool.and_eq_true, List.all_eq_true] at h
      exact ⟨c, cs, rfl, h.1, h.2⟩

/-- What stands behind the opening bracket of a tag that was written. -/
theorem readTag_written (h : Writable t) (make : TagToken → Token) (rest : List Char) :
    readTag make (t.name.toList ++ (t.attributes.flatMap writeAttribute ++ '>' :: rest)) =
      ⟨[make (tokenOf t)], rest, false⟩ := by
  rcases exists_name h.name with ⟨c, cs, hcs, _, hchars⟩
  rw [← hcs] at hchars
  have hstop : ∀ d ∈ (t.attributes.flatMap writeAttribute ++ '>' :: rest).head?,
      isTagNameChar d = false := by
    cases t.attributes with
    | nil => exact Text.forall_mem_head?_cons.2 (by decide)
    | cons a attributes => exact Text.forall_mem_head?_cons.2 (by decide)
  have hread := readAttributes?_written h.attributes [] rest
  rw [readTag, Text.takeWhile_append_stop hchars hstop, Text.dropWhile_append_stop hchars hstop,
    hread]
  rfl

/-- A letter is none of the characters that begin other markup. -/
theorem isAlpha_ne {c : Char} (h : c.isAlpha = true) : c ≠ '!' ∧ c ≠ '/' ∧ c ≠ '?' ∧ c ≠ '>' := by
  refine ⟨?_, ?_, ?_, ?_⟩
  all_goals
    rintro rfl
    exact absurd h (by decide)

/-- A start tag is cut as a whole. -/
theorem next_startTag (h : Writable t) (foreign : Bool) (rest : List Char) :
    next .data foreign '<' (t.name.toList ++ (t.attributes.flatMap writeAttribute ++ '>' :: rest)) =
      ⟨[.startTag (tokenOf t)], rest, false⟩ := by
  have hread := readTag_written h .startTag rest
  rcases exists_name h.name with ⟨c, cs, hcs, hc, _⟩
  rcases isAlpha_ne hc with ⟨hbang, hslash, _, _⟩
  rw [hcs, List.cons_append] at hread ⊢
  simp only [next, nextData, readMarkup, if_true, if_neg hbang, if_neg hslash, if_pos hc, hread]

/-- An end tag is cut as a whole. -/
theorem next_endTag (h : isTagName t.name.toList = true) (foreign : Bool) (rest : List Char) :
    next .data foreign '<' ('/' :: (t.name.toList ++ '>' :: rest)) =
      ⟨[.endTag (lowered t.name)], rest, false⟩ := by
  -- An end tag is read as a tag without attributes.
  have hwritable : Writable { t with attributes := [] } := ⟨h, by simp⟩
  have hread := readTag_written hwritable endTagOf rest
  rcases exists_name h with ⟨c, cs, hcs, hc, _⟩
  simp only [List.flatMap_nil, List.nil_append] at hread
  rw [hcs, List.cons_append] at hread ⊢
  have hslash : ('/' : Char) ≠ '!' := by decide
  simp only [next, nextData, readMarkup, readEndTag, if_true, if_neg hslash, if_pos hc, hread]
  rfl

end Tags

section Lines

variable {t : Tag}

/-- The characters of the name of an attribute might stand in the name of a tag. -/
theorem isTagNameChar_of_mem {cs : List Char} (h : isAttributeName cs = true) {c : Char}
    (hc : c ∈ cs) : isTagNameChar c = true := by
  cases cs with
  | nil => exact absurd hc List.not_mem_nil
  | cons d ds =>
      rw [isAttributeName, Bool.and_eq_true, List.all_eq_true] at h
      rcases List.mem_cons.1 hc with rfl | hc
      · exact h.1
      · have hchar := h.2 c hc
        rw [isAttributeNameChar, Bool.and_eq_true] at hchar
        exact hchar.1

/-- No carriage return is written of an attribute. -/
theorem not_mem_writeAttribute {a : SoleRoot.Attribute}
    (hname : isAttributeName a.name.toList = true)
    (hvalue : a.value.toList.all isSteady = true) : '\r' ∉ writeAttribute a := by
  intro hmem
  simp only [writeAttribute, List.cons_append, List.append_assoc, List.mem_cons, List.mem_append,
    List.nil_append] at hmem
  rcases hmem with hc | hc | hc | hc | hc | hc | hc
  · exact absurd hc (by decide)
  · exact absurd (isTagNameChar_of_mem hname hc) (by decide)
  · exact absurd hc (by decide)
  · exact absurd hc (by decide)
  -- A character of the value is its own, or part of an escape.
  · rcases mem_escapeValue hc with hescape | ⟨hmem, _⟩
    · exact absurd hescape (by decide)
    · exact (not_mem_of_isSteady hvalue).2 hmem
  · exact absurd hc (by decide)
  · exact absurd hc List.not_mem_nil

theorem not_mem_name (h : Writable t) : '\r' ∉ t.name.toList := by
  rcases exists_name h.name with ⟨c, cs, hcs, _, hchars⟩
  intro hmem
  rw [hcs] at hmem
  exact absurd (hchars _ hmem) (by decide)

/-- No carriage return is written of a tag. -/
theorem not_mem_startTag (h : Writable t) : '\r' ∉ startTag t := by
  intro hmem
  simp only [startTag, List.cons_append, List.mem_cons, List.mem_append, List.mem_flatMap] at hmem
  rcases hmem with hc | hc | ⟨a, ha, hc⟩
  · exact absurd hc (by decide)
  · exact not_mem_name h hc
  · exact not_mem_writeAttribute (h.attributes a ha).1 (h.attributes a ha).2 hc

theorem not_mem_endTag (h : Writable t) : '\r' ∉ endTag t := by
  intro hmem
  simp only [endTag, List.cons_append, List.mem_cons, List.mem_append, List.not_mem_nil,
    or_false] at hmem
  rcases hmem with hc | hc | hc | hc
  · exact absurd hc (by decide)
  · exact absurd hc (by decide)
  · exact not_mem_name h hc
  · exact absurd hc (by decide)

end Lines

section Comments

variable {content cs : List Char}

/-- A mark cannot be stripped from a text that does not begin with it. -/
theorem strip?_eq_none {mark cs : List Char} (h : ¬ mark <+: cs) : Text.strip? mark cs = none := by
  cases hstrip : Text.strip? mark cs with
  | none => rfl
  | some rest => exact absurd ⟨rest, (Text.strip?_eq_some_iff.1 hstrip).symm⟩ h

/-- The other mark that closes a comment does not come about where the content
    meets the usual one. -/
theorem not_prefix_other {c : Char} (h : ¬ ['-', '-', '!', '>'] <:+: c :: content)
    (rest : List Char) :
    ¬ ['-', '-', '!', '>'] <+: c :: (content ++ ['-', '-', '>'] ++ rest) := by
  intro hprefix
  rcases content with _ | ⟨d, _ | ⟨e, _ | ⟨f, content⟩⟩⟩
  · simp at hprefix
  · simp at hprefix
  · simp at hprefix
  -- From four characters on the mark would stand inside the content.
  · refine h (List.IsPrefix.isInfix ?_)
    simpa using hprefix

/-- A comment is closed by the mark behind its content. -/
theorem breakComment?_append (hmark : ¬ ['-', '-', '>'] <:+: content)
    (hother : ¬ ['-', '-', '!', '>'] <:+: content) (rest : List Char) :
    breakComment? (content ++ ['-', '-', '>'] ++ rest) = some (content, rest) := by
  induction content with
  | nil => rfl
  | cons c content ih =>
      have hunrepeated : Text.Unrepeated ['-', '-', '>'] := ⟨['-', '-'], '>', rfl, by decide⟩
      have hearly : ¬ ['-', '-', '>'] <+: c :: (content ++ ['-', '-', '>'] ++ rest) :=
        Text.not_prefix_of_unrepeated hunrepeated hmark
      rw [List.cons_append, List.cons_append, breakComment?, stripEither?, strip?_eq_none hearly,
        strip?_eq_none (not_prefix_other hother rest), Option.none_or]
      simp only
      rw [ih (fun h => hmark (h.trans (List.suffix_cons c content).isInfix))
        (fun h => hother (h.trans (List.suffix_cons c content).isInfix))]
      rfl

/-- A text without null characters stays as it is. -/
theorem map_replaceNull (h : '\x00' ∉ content) : content.map replaceNull = content :=
  (List.map_congr_left fun c hc => if_neg fun hc0 => h (by rw [← hc0]; exact hc)).trans
    (List.map_id content)

theorem commentOf_steady (h : content.all isSteady = true) :
    commentOf content = .comment (String.ofList content) := by
  rw [commentOf, map_replaceNull (not_mem_of_isSteady h).1]

/-- A comment is cut as a whole. -/
theorem next_comment (h : Closeable content) (foreign : Bool) (rest : List Char) :
    next .data foreign '<' ('!' :: '-' :: '-' :: (content ++ ['-', '-', '>'] ++ rest)) =
      ⟨[.comment (String.ofList content)], rest, false⟩ := by
  -- The comment does not end at once.
  have hopen : stripEither? ['>'] ['-', '>'] (content ++ ['-', '-', '>'] ++ rest) = none := by
    have hbracket := h.bracket
    have hhyphen := h.hyphen
    rw [stripEither?, strip?_eq_none, strip?_eq_none, Option.none_or]
    · rcases content with _ | ⟨c, _ | ⟨d, content⟩⟩
      · simp
      · simp
      · simpa using hhyphen
    · rcases content with _ | ⟨c, content⟩
      · simp
      · simpa using hbracket
  have hstrip : Text.strip? ['-', '-'] ('-' :: '-' :: (content ++ ['-', '-', '>'] ++ rest)) =
      some (content ++ ['-', '-', '>'] ++ rest) := Text.strip?_eq_some_iff.2 rfl
  simp only [next, nextData, readMarkup, readDeclaration, if_true, hstrip, readComment, hopen,
    breakComment?_append h.mark h.other rest, commentOf_steady h.steady]

end Comments

section Texts

/-- The escape of a character is a piece. -/
theorem next_escape {d c : Char} {cs : List Char} (h : Reference.Names d c cs) (foreign : Bool)
    (rest : List Char) :
    next .data foreign '&' (c :: cs ++ rest) = ⟨[.text [d]], rest, false⟩ := by
  have hless : ('&' : Char) ≠ '<' := by decide
  simp only [next, nextData, if_neg hless, if_true, readReference, h.read?, Bool.not_true]

/-- A run of characters that are no markup is a piece. -/
theorem next_run {c : Char} (hc : isRunChar c = true) (foreign : Bool) (cs : List Char) :
    next .data foreign c cs =
      ⟨[.text (c :: cs.takeWhile isRunChar)], cs.dropWhile isRunChar, false⟩ := by
  simp only [isRunChar, Bool.and_eq_true, decide_eq_true_eq, ne_eq] at hc
  rcases hc with ⟨⟨hless, hampersand⟩, hnull⟩
  simp only [next, nextData, if_neg hless, if_neg hampersand, if_neg hnull]

end Texts

end Html

end SoleRoot

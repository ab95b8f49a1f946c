import SoleRoot.Proofs.Faithful.Cutting
import SoleRoot.Proofs.Faithful.RoundTrip

/-!
# Events That Are Read Again

When the token that an event is written as is read as this event.

`Event.Rereads` asks three things of that token: it is cut off where it ends,
the reader finds nothing wrong with it, and it stands for the event it was
written for. An event that was read from a token has them all if the token is
written as it was read. An event that was put together by other means has them
if its parts were chosen with care, and for each kind of event one lemma says
what care this is.

For tags it is `Spells`: the name is followed by a section of plain clauses, and
the tag records just these clauses. `Readable` adds that the tag is cut off at
its end, which depends on its first character and its quotes, and for a start
tag also on its last character, since a slash would make it self-closing.

## Main definitions

* `Event.Rereads`: Whether an event is written so that it is read again.
* `Spells`: A section of plain clauses that a tag records.
* `Readable`: A tag that is spelled by such a section and cut off at its end.

## Theorems

* `whole_startTag_iff`, `whole_selfClosingTag_iff`: Tags that are cut off at
  their end.
* `rereads_of_respelled`: Events that were read from a token.
* `rereads_text`, `rereads_comment`, `rereads_cdata`, `rereads_stop`: Events that
  were put together.
* `Readable.rereads`: The same for start tags.
-/

namespace SoleRoot

namespace Faithful

namespace Token

/-- Whether a token is a start tag or a self-closing one. -/
def isTag : Token → Bool
  | startTag _ | selfClosingTag _ => true
  | _ => false

end Token

/-- A tag is a start tag unless its last character is a slash. -/
theorem tagOf_eq_startTag_iff {body : List Char} :
    tagOf body = .startTag body ↔ body.getLast? ≠ some '/' := by
  unfold tagOf
  split
  · rename_i rest h
    rw [List.getLast?_eq_head?_reverse, h]
    simp
  · rename_i h
    rw [List.getLast?_eq_head?_reverse]
    simp only [true_iff]
    intro hhead
    rcases List.head?_eq_some_iff.1 hhead with ⟨rest, hrest⟩
    exact h rest hrest

/-- A slash at the end makes a tag self-closing. -/
theorem tagOf_slash (content : List Char) :
    tagOf (content ++ ['/']) = .selfClosingTag content := by
  unfold tagOf
  rw [List.reverse_append]
  simp

/-- What a bracket and an exclamation mark start is no tag. -/
theorem isTag_of_nextBang {cs rest : List Char} {t : Token} (h : nextBang cs = .ok (t, rest)) :
    t.isTag = false := by
  unfold nextBang at h
  split at h
  · rcases eq_of_nextBetween h with ⟨content, rfl, _⟩
    rfl
  split at h
  · rcases eq_of_nextBetween h with ⟨content, rfl, _⟩
    rfl
  split at h
  · rcases eq_of_nextDoctype h with ⟨content, rfl, _⟩
    rfl
  · simp at h

/-- Nor is a processing instruction. -/
theorem isTag_of_nextInstruction {cs rest : List Char} {t : Token}
    (h : nextInstruction cs = .ok (t, rest)) : t.isTag = false := by
  unfold nextInstruction at h
  split at h
  · simp at h
  · rcases eq_of_nextBetween h with ⟨content, rfl, _⟩
    rfl

/-- Whether a construct that begins like this is a tag. -/
def StartsTag (body : List Char) : Prop :=
  ∀ c ∈ body.head?, c ≠ '!' ∧ c ≠ '?' ∧ c ≠ '/'

/-- A construct that begins like a tag and closes its quotes is cut at its end. -/
theorem next_tag {body : List Char} (hfirst : StartsTag body)
    (hopen : openQuote? none body = some none) :
    next ('<' :: (body ++ ['>'])) = .ok (tagOf body, []) := by
  have hbreak : nextTag tagOf (body ++ ['>']) = .ok (tagOf body, []) := by
    rw [nextTag, breakTag?_append hopen]
  rw [next_angle]
  cases body with
  | nil => exact hbreak
  | cons c cs =>
      -- The first character sends it to neither of the other constructs.
      rcases hfirst c rfl with ⟨hbang, hmark, hslash⟩
      rw [List.cons_append, nextMarkup, if_neg hbang, if_neg hmark, if_neg hslash]
      exact hbreak

/-- A tag that is cut off at its end begins like a tag and closes its quotes. -/
theorem of_next_tag {body : List Char} {t : Token} (htag : t.isTag = true)
    (h : next ('<' :: (body ++ ['>'])) = .ok (t, [])) :
    t = tagOf body ∧ StartsTag body ∧ openQuote? none body = some none := by
  -- What comes of it if the construct is read as a start tag.
  have hcut (hnext : nextTag tagOf (body ++ ['>']) = .ok (t, [])) :
      t = tagOf body ∧ openQuote? none body = some none := by
    unfold nextTag at hnext
    split at hnext
    · rename_i content after hbreak
      simp only [Except.ok.injEq, Prod.mk.injEq] at hnext
      rcases hnext with ⟨rfl, rfl⟩
      rcases breakTag?_eq_some_iff.1 hbreak with ⟨heq, hopen⟩
      rw [List.append_cancel_right heq]
      exact ⟨rfl, hopen⟩
    · simp at hnext
  rw [next_angle] at h
  cases body with
  | nil => exact ⟨(hcut h).1, fun c hc => by simp at hc, rfl⟩
  | cons c cs =>
      rw [List.cons_append, nextMarkup] at h
      split at h
      · rw [isTag_of_nextBang h] at htag
        exact Bool.noConfusion htag
      split at h
      · rw [isTag_of_nextInstruction h] at htag
        exact Bool.noConfusion htag
      split at h
      · rcases eq_of_nextTag h with ⟨content, rfl, _⟩
        exact Bool.noConfusion htag
      · rename_i hbang hmark hslash
        exact ⟨(hcut h).1, Text.forall_mem_head?_cons.2 ⟨hbang, hmark, hslash⟩, (hcut h).2⟩

/-- When a start tag is cut off at its end. -/
theorem whole_startTag_iff {content : List Char} :
    (Token.startTag content).Whole ↔ StartsTag content ∧ openQuote? none content = some none ∧
      content.getLast? ≠ some '/' := by
  constructor
  · intro h
    rcases of_next_tag rfl h.next_raw with ⟨heq, hfirst, hopen⟩
    exact ⟨hfirst, hopen, tagOf_eq_startTag_iff.1 heq.symm⟩
  · rintro ⟨hfirst, hopen, hlast⟩
    refine ⟨?_, List.cons_ne_nil _ _⟩
    rw [← tagOf_eq_startTag_iff.2 hlast, raw_tagOf]
    exact next_tag hfirst hopen

/-- When a self-closing tag is cut off at its end. -/
theorem whole_selfClosingTag_iff {content : List Char} :
    (Token.selfClosingTag content).Whole ↔
      StartsTag (content ++ ['/']) ∧ openQuote? none content = some none := by
  have hraw : (Token.selfClosingTag content).raw = '<' :: ((content ++ ['/']) ++ ['>']) := by
    simp [Token.raw]
  have hopen : openQuote? none (content ++ ['/']) = some none ↔
      openQuote? none content = some none := by
    rw [openQuote?_append]
    cases openQuote? none content with
    | none => simp
    | some quote =>
        -- A slash neither opens a quote nor closes one.
        cases quote with
        | none => simp [openQuote?, Quote.ofChar?]
        | some quote => cases quote <;> simp [openQuote?, Quote.toChar]
  constructor
  · intro h
    rcases of_next_tag rfl (hraw ▸ h.next_raw) with ⟨_, hfirst, hslash⟩
    exact ⟨hfirst, hopen.1 hslash⟩
  · rintro ⟨hfirst, hcontent⟩
    refine ⟨?_, List.cons_ne_nil _ _⟩
    rw [hraw, next_tag hfirst (hopen.2 hcontent), tagOf_slash]

/-- An end tag is cut off at its end if it closes its quotes. -/
theorem whole_endTag {content : List Char} (h : openQuote? none content = some none) :
    (Token.endTag content).Whole where
  next_raw := by
    change next ('<' :: '/' :: (content ++ ['>'])) = _
    rw [next_angle]
    change nextTag .endTag (content ++ ['>']) = _
    rw [nextTag, breakTag?_append h]
  raw_ne_nil := List.cons_ne_nil _ _

/-- A text without opening angle brackets is one token. -/
theorem whole_text {content : List Char} (hne : content ≠ []) (hangle : '<' ∉ content) :
    (Token.text content).Whole where
  next_raw := by
    have h : next (content ++ []) = .ok (.text content, []) :=
      next_text hangle (fun c hc => by simp at hc) hne
    rwa [List.append_nil] at h
  raw_ne_nil := hne

/-- A construct between marks is cut off at its end if the closing mark does not
    stand inside. -/
theorem nextBetween_append {opening closing content : List Char}
    (hclosing : Text.Unrepeated closing) (hfree : ¬ closing <:+: content)
    (make : List Char → Token) (failure : Unterminated) :
    nextBetween opening closing make failure (opening ++ (content ++ closing)) =
      .ok (make content, []) := by
  have hstrip : Text.strip? opening (opening ++ (content ++ closing)) = some (content ++ closing) :=
    Text.strip?_eq_some_iff.2 rfl
  have hbreak := Text.breakOn?_append hclosing hfree []
  rw [List.append_nil] at hbreak
  rw [nextBetween, hstrip, Option.bind_some, hbreak]

/-- A comment is cut off at its end if its closing mark does not stand inside. -/
theorem whole_comment {content : List Char} (h : ¬ ['-', '-', '>'] <:+: content) :
    (Token.comment content).Whole where
  next_raw := by
    have hclosing : Text.Unrepeated ['-', '-', '>'] := ⟨['-', '-'], '>', rfl, by decide⟩
    change next ('<' :: '!' :: (['-', '-'] ++ (content ++ ['-', '-', '>']))) = _
    rw [next_angle]
    exact nextBetween_append hclosing h .comment .comment
  raw_ne_nil := List.cons_ne_nil _ _

/-- So is a CDATA section. -/
theorem whole_cdata {content : List Char} (h : ¬ [']', ']', '>'] <:+: content) :
    (Token.cdata content).Whole where
  next_raw := by
    have hclosing : Text.Unrepeated [']', ']', '>'] := ⟨[']', ']'], '>', rfl, by decide⟩
    change next ('<' :: '!' :: (['[', 'C', 'D', 'A', 'T', 'A', '['] ++
      (content ++ [']', ']', '>']))) = _
    rw [next_angle]
    exact nextBetween_append hclosing h .cdata .cdata
  raw_ne_nil := List.cons_ne_nil _ _

/-- Whether an event is written so that it is read again. -/
structure Event.Rereads (e : Event) : Prop where
  whole : e.token.Whole
  valid : e.token.Valid
  ownEvent : e.token.ownEvent? = some e

/-- An event is read again if it was read from a token that is written as it was
    read. -/
theorem rereads_of_respelled {t : Token} {e : Event} (hwhole : t.Whole) (hvalid : t.Valid)
    (he : t.ownEvent? = some e) (h : t.respelled = t) : e.Rereads := by
  have htoken : e.token = t := (Token.token_of_ownEvent? he).trans h
  exact ⟨htoken ▸ hwhole, htoken ▸ hvalid, by rw [htoken, he]⟩

/-- A text without opening brackets, and without bad references, is read again. -/
theorem rereads_text {content : String} (hne : content ≠ "") (hangle : '<' ∉ content.toList)
    (hcheck : check content.toList = .ok ()) : (Event.text content).Rereads where
  whole := whole_text (fun h => hne (String.toList_eq_nil_iff.1 h)) hangle
  valid := hcheck
  ownEvent := by simp [Token.ownEvent?, Event.token, Token.event?]

/-- A comment is read again if its closing mark does not stand inside. -/
theorem rereads_comment {content : String} (h : ¬ ['-', '-', '>'] <:+: content.toList) :
    (Event.comment content).Rereads where
  whole := whole_comment h
  valid := trivial
  ownEvent := by simp [Token.ownEvent?, Event.token, Token.event?]

/-- So is a CDATA section. -/
theorem rereads_cdata {content : String} (h : ¬ [']', ']', '>'] <:+: content.toList) :
    (Event.cdata content).Rereads where
  whole := whole_cdata h
  valid := trivial
  ownEvent := by simp [Token.ownEvent?, Event.token, Token.event?]

/-- An end tag is read again if it can be told where its name ends and its white
    space begins. -/
theorem rereads_stop {name space : List Char} (hopen : openQuote? none (name ++ space) = some none)
    (hname : ∀ c ∈ name.getLast?, Text.isBlank c = false)
    (hspace : ∀ c ∈ space, Text.isXmlSpace c = true) (hne : name = [] → space = []) :
    (Event.stop (String.ofList name) (unusual? [] space)).Rereads := by
  have htoken : (Event.stop (String.ofList name) (unusual? [] space)).token =
      .endTag (name ++ space) := by
    rw [Event.token, String.toList_ofList, spelling_unusual?]
  have hend : endName (name ++ space) = name := by
    unfold endName
    split
    · rename_i hall
      cases hlast : name.getLast? with
      | none =>
          have hnil := List.getLast?_eq_none_iff.1 hlast
          rw [hnil, hne hnil]
          rfl
      | some c =>
          -- White space alone has no last character of a name.
          have hc := Text.isBlank_of_isXmlSpace (List.all_eq_true.1 hall c
            (List.mem_append_left _ (List.mem_of_getLast? hlast)))
          rw [hname c hlast] at hc
          exact Bool.noConfusion hc
    · refine Text.trimEnd_append (fun c hc => ?_) hspace
      have hblank := hname c hc
      cases hxml : Text.isXmlSpace c with
      | false => rfl
      | true => rw [Text.isBlank_of_isXmlSpace hxml] at hblank; exact hblank
  -- The name and the white space are found where they were joined.
  refine ⟨htoken ▸ whole_endTag hopen, htoken ▸ trivial, ?_⟩
  rw [htoken]
  change some (Event.stop (String.ofList (endName (name ++ space))) (endSpace _)) = _
  rw [endSpace_raw, hend, Text.trailing_append hname fun c hc =>
    Text.isBlank_of_isXmlSpace (hspace c hc)]

/-- Text without quotes and closing brackets leaves a tag as it is. -/
theorem openQuote?_quiet {cs : List Char}
    (h : ∀ c ∈ cs, c ≠ '>' ∧ Quote.ofChar? c = none) : openQuote? none cs = some none := by
  induction cs with
  | nil => rfl
  | cons c cs ih =>
      rcases List.forall_mem_cons.1 h with ⟨hc, hcs⟩
      rw [openQuote?, if_neg hc.1, hc.2]
      exact ih hcs

/-- A value between its quotes leaves no quote open. -/
theorem openQuote?_quoted {q : Quote} {value : List Char} (h : q.toChar ∉ value) :
    openQuote? none (q.toChar :: (value ++ [q.toChar])) = some none := by
  have hinside : openQuote? (some q) (value ++ [q.toChar]) = some none := by
    induction value with
    | nil => simp [openQuote?]
    | cons c cs ih =>
        rw [List.mem_cons, not_or] at h
        rw [List.cons_append, openQuote?, if_neg fun hc => h.1 hc.symm]
        exact ih h.2
  have hangle : q.toChar ≠ '>' := by cases q <;> decide
  rw [openQuote?, if_neg hangle, Quote.ofChar?_toChar, hinside]

/-- White space neither ends a tag nor opens a quote. -/
theorem quiet_of_isXmlSpace {c : Char} (h : Text.isXmlSpace c = true) :
    c ≠ '>' ∧ Quote.ofChar? c = none := by
  simp only [Text.isXmlSpace, Bool.or_eq_true, beq_iff_eq] at h
  rcases h with ((rfl | rfl) | rfl) | rfl <;> decide

/-- A section ends with white space or with a quote, never with a slash. -/
theorem Clauses.getLast?_text (s : Clauses) : s.text.getLast? ≠ some '/' := by
  intro hlast
  rw [text, List.getLast?_append] at hlast
  -- Without white space at the end the last character is that of the last clause.
  cases htrail : s.trail.getLast? with
  | some c =>
      rw [htrail, Option.some_or] at hlast
      have hspace := s.trail_space c (List.mem_of_getLast? htrail)
      rw [Option.some.inj hlast] at hspace
      exact absurd hspace (by decide)
  | none =>
      rw [htrail, Option.none_or] at hlast
      rcases List.eq_nil_or_concat' s.list with hnil | ⟨init, c, hlist⟩
      · simp [hnil] at hlast
      · rw [hlist, List.flatMap_append, List.flatMap_singleton, Clause.text,
          ← List.append_assoc, List.getLast?_concat] at hlast
        exact absurd (Option.some.inj hlast) (by cases c.quote <;> decide)

/-- The attribute of a clause is written as the clause. -/
theorem Clause.writeAttribute_toAttribute (c : Clause) : writeAttribute c.toAttribute = c.text := by
  simp [writeAttribute, Clause.toAttribute, Clause.text]

/-- A section of plain clauses that a tag records. -/
structure Spells (s : Clauses) (tag : Tag) : Prop where
  attributes : tag.attributes = s.list.map Clause.toAttribute
  trailing : tag.trailing = unusual? [] s.trail
  plain : s.Plain
  valid : s.Valid
  name_solid : ∀ c ∈ tag.name.toList, Text.isXmlSpace c = false
  /-- The name ends where the section begins. -/
  head_space : ∀ c ∈ s.text.head?, Text.isXmlSpace c = true

namespace Spells

variable {s : Clauses} {tag : Tag}

/-- A tag is written as its name and the section. -/
theorem tagContent_eq (h : Spells s tag) : tagContent tag = tag.name.toList ++ s.text := by
  rw [tagContent, h.attributes, h.trailing, spelling_unusual?, List.flatMap_map, Clauses.text,
    List.append_assoc]
  simp only [Clause.writeAttribute_toAttribute]

/-- Behind the name the section is found again. -/
theorem tagRest_eq (h : Spells s tag) : tagRest (tagContent tag) = s.text := by
  rw [h.tagContent_eq, tagRest_append h.name_solid h.head_space]

/-- What is written of the tag says the tag again. -/
theorem spelledTag_eq (h : Spells s tag) (hend : tag.endTrailing = none) :
    spelledTag tag.selfClosing (tagContent tag) = tag := by
  -- Both readings divide the section into the same clauses.
  have hscan := Clauses.scan_text h.plain
  have hname : tagName (tagContent tag) = tag.name.toList := by
    rw [h.tagContent_eq, tagName_append h.name_solid h.head_space]
  rw [spelledTag, h.tagRest_eq, hscan, hname, String.ofList_toList, ← h.attributes, ← h.trailing,
    ← hend]

end Spells

/-- The token of a start tag. -/
def tagToken (tag : Tag) : Token :=
  if tag.selfClosing then .selfClosingTag (tagContent tag) else .startTag (tagContent tag)

/-- The event of a start tag. -/
def tagEvent (tag : Tag) : Event :=
  if tag.selfClosing then .single tag else .start tag

theorem tagEvent_start {tag : Tag} (h : tag.selfClosing = false) : tagEvent tag = .start tag := by
  rw [tagEvent, h, if_neg Bool.false_ne_true]

theorem tagEvent_single {tag : Tag} (h : tag.selfClosing = true) : tagEvent tag = .single tag := by
  rw [tagEvent, h, if_pos rfl]

theorem tagToken_start {tag : Tag} (h : tag.selfClosing = false) :
    tagToken tag = .startTag (tagContent tag) := by
  rw [tagToken, h, if_neg Bool.false_ne_true]

theorem tagToken_single {tag : Tag} (h : tag.selfClosing = true) :
    tagToken tag = .selfClosingTag (tagContent tag) := by
  rw [tagToken, h, if_pos rfl]

/-- What stands between the content of a start tag and its closing bracket. -/
def tagMark (tag : Tag) : List Char :=
  if tag.selfClosing then ['/'] else []

/-- When a start tag of either kind is cut off at its end. -/
theorem whole_tagToken_iff {tag : Tag} :
    (tagToken tag).Whole ↔ StartsTag (tagContent tag ++ tagMark tag) ∧
      openQuote? none (tagContent tag) = some none ∧
      (tag.selfClosing = false → (tagContent tag).getLast? ≠ some '/') := by
  cases h : tag.selfClosing with
  | false =>
      rw [tagToken_start h, whole_startTag_iff, tagMark, h, if_neg Bool.false_ne_true,
        List.append_nil]
      simp
  | true =>
      rw [tagToken_single h, whole_selfClosingTag_iff, tagMark, h, if_pos rfl]
      simp

/-- A tag that is written so that it is read again. -/
structure Readable (tag : Tag) : Prop where
  spells : ∃ s, Spells s tag
  whole : (tagToken tag).Whole

/-- A readable start tag is read again. -/
theorem Readable.rereads {tag : Tag} (h : Readable tag) (hend : tag.endTrailing = none) :
    (tagEvent tag).Rereads := by
  rcases h with ⟨⟨s, hs⟩, hwhole⟩
  have htag := hs.spelledTag_eq hend
  cases hself : tag.selfClosing with
  | false =>
      rw [tagToken_start hself] at hwhole
      rw [hself] at htag
      rw [tagEvent_start hself]
      refine ⟨hwhole, ⟨s, hs.tagRest_eq, hs.valid⟩, ?_⟩
      change some (Event.start (spelledTag false (tagContent tag))) = _
      rw [htag]
  | true =>
      rw [tagToken_single hself] at hwhole
      rw [hself] at htag
      rw [tagEvent_single hself]
      refine ⟨hwhole, ⟨s, hs.tagRest_eq, hs.valid⟩, ?_⟩
      change some (Event.single (spelledTag true (tagContent tag))) = _
      rw [htag]

/-- A tag that was read is readable if both readings agree about it. -/
theorem readable_spelledTag {selfClosing : Bool} {content : List Char} {t : Token}
    (ht : t = if selfClosing then .selfClosingTag content else .startTag content)
    (hwhole : t.Whole) (hvalid : t.Valid) (hsolid : t.Solid)
    (hequals : ∀ key ∈ t.keys, key.head? ≠ some '=') :
    Readable (spelledTag selfClosing content) := by
  have hkind : t = .startTag content ∨ t = .selfClosingTag content := by
    cases selfClosing with
    | false => exact .inl ht
    | true => exact .inr ht
  rcases exists_clauses_of_valid hkind hvalid with ⟨s, htext, hs, hkeys⟩
  -- The clauses are plain, so scanning finds what the declarations say.
  have hplain : s.Plain := Token.plain_of_keys hkeys hsolid hequals
  have hscan := Clauses.scan_text hplain
  rw [← htext] at hscan
  refine ⟨⟨s, ?_⟩, ?_⟩
  · exact
      { attributes := by rw [spelledTag, hscan]
        trailing := by rw [spelledTag, hscan]
        plain := hplain
        valid := hs
        name_solid := fun c hc => by
          rw [spelledTag, String.toList_ofList] at hc
          have hname := List.mem_takeWhile_imp hc
          simpa using hname
        head_space := fun c hc => by
          rw [← htext, Faithful.tagRest_eq] at hc
          have hhead := Text.not_head_dropWhile c hc
          simpa using hhead }
  · -- What is written is what was read, so it is cut off where it was.
    have hcontent : tagContent (spelledTag selfClosing content) = content := by
      rw [tagContent_spelledTag, htext, respell_of_quoted (Clauses.quoted_of_plain hplain), ← htext,
        tagName_append_tagRest]
    rw [tagToken, hcontent]
    rw [ht] at hwhole
    exact hwhole

end Faithful

end SoleRoot

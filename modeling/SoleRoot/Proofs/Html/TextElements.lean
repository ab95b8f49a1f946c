import SoleRoot.Proofs.Html.Numbering
import SoleRoot.Proofs.Html.Pieces

/-!
# Elements That Hold Text Only

Titles, style sheets and the like, inside which nothing but the end tag is markup.

What is inside such an element is one text. In a title it is written with escapes, and
read with its references decoded, so any text comes back. Elsewhere it is written as it is
and ends where the first end tag of its name begins, which in a script must not be inside a
comment. `fitsAsText` asks that the one that was written is the first. It looks at the text
and the end tag alone, since what follows the end tag is too late to matter.

Behind the end tag the reader is in the mode again in which it was before. Behind a script
reading starts anew, so that a byte order mark there would not count.

## Main definitions

* `textReading`: How the text of an element is read.
* `fitsAsText`: Whether the text of an element is read as it was written.
* `admitsText`: Whether a start tag begins such an element and does nothing else.
* `Builder.enteredText`, `InText`: The state inside such an element.

## Theorems

* `breakAt_append`: What follows the end tag does not matter.
* `InText.grow_contents`: The text is put in its place.
* `Ready.look_startText`: The start tag of an admitted element opens it.
* `Ready.grow_textElement`: The whole element is put in its place.
-/

namespace SoleRoot

namespace Html

open Builder

/-- The names of elements whose text has references in it. -/
def escapableNames : List String :=
  ["title", "textarea"]

/-- The names of elements whose text is read as it stands. -/
def literalNames : List String :=
  ["script", "style", "xmp", "iframe", "noembed", "noframes", "noscript"]

/-- How the text of an element is read. -/
def textReading (name : String) : Reading :=
  if escapableNames.contains name then .escapable name
  else if name = "script" then .script
  else .raw name

/-- A text that is read as it stands, broken where its end tag begins. -/
def breakLiteral (name : String) (cs : List Char) : List Char × List Char :=
  if name = "script" then breakScript .normal cs else breakAt (startsWithEndTag name) cs

/-- Whether a run of text ends where references are decoded. -/
def breaksEscapable (name : String) (cs : List Char) : Bool :=
  cs.head? = some '&' || startsWithEndTag name cs

/-- Whether what is inside an element that holds text only is read as it was written. -/
def fitsAsText (name : String) : List Node → Bool
  | [] => true
  | [.text content] =>
    content.toList ≠ [] && content.toList.all isSteady &&
      if escapableNames.contains name then
        name != "textarea" || content.toList.head? != some '\n'
      else
        breakLiteral name (content.toList ++ endTag { name }) == (content.toList, endTag { name })
  | _ => false

/-- Whether a start tag begins an element that holds text only, and does nothing else. -/
def admitsText (names : List Name) (name : String) : Bool :=
  (escapableNames ++ literalNames).contains name && readsHtml (innermost names) &&
    (isFlow (modeFor names) && (name != "xmp" || !inParagraph names) ||
      ["style", "script"].contains name &&
        [.inTable, .inTableBody, .inRow].contains (modeFor names) ||
      name == "script" && [.inSelect, .inSelectInTable].contains (modeFor names))

/-- The state inside a new element that holds text only. -/
def Builder.enteredText (b : Builder) (t : Tag) : Builder :=
  { b.entered (.html t.name) (Foreign.attributesIn .html (tokenOf t).attributes) b.formatting with
    mode := .inText, returnMode := b.mode, reading := textReading t.name }

/-- Whether the reader is inside an element that holds text only. -/
structure InText (r : Reading) (b : Builder) : Prop where
  mode : b.mode = .inText
  reading : b.reading = r
  skipsLineFeed : b.skipsLineFeed = false
  fostering : b.fostering = false
  html : b.current.name.space = .html

theorem textNames_spec {name : String} (h : name ∈ escapableNames ++ literalNames) :
    lowered name = name ∧ isTagName name.toList = true ∧ name ∉ ["svg", "math"] ++ glyphs ∧
      voidNames.contains name = false ∧ name ≠ "form" ∧ name ∉ modal ∧ name ∉ skipping ∧
      name ∉ ["body", "html", "tr"] ++ upperParts ++ cells ∧
      rawNames.contains name = !escapableNames.contains name := by
  -- All of this is computed for the nine names.
  revert name
  decide +kernel

/-- What is inside is nothing or one text. -/
theorem fitsAsText_cases {name : String} {children : List Node}
    (h : fitsAsText name children = true) :
    children = [] ∨ ∃ content : String, children = [.text content] ∧ content.toList ≠ [] ∧
      content.toList.all isSteady = true ∧
      (if escapableNames.contains name then
        name != "textarea" || content.toList.head? != some '\n'
      else
        breakLiteral name (content.toList ++ endTag { name }) ==
          (content.toList, endTag { name })) = true := by
  unfold fitsAsText at h
  split at h
  · exact .inl rfl
  · rename_i content
    simp only [Bool.and_eq_true, decide_eq_true_eq] at h
    exact .inr ⟨content, rfl, h.1.1, h.1.2, h.2⟩
  · exact absurd h Bool.false_ne_true

section Breaking

variable {name : String} {cs rest : List Char}

/-- Whether a text starts with a mark is told by as many characters as the mark has. -/
theorem strip?_append {mark : List Char} (h : mark.length ≤ cs.length) (rest : List Char) :
    Text.strip? mark (cs ++ rest) = (Text.strip? mark cs).map (· ++ rest) := by
  cases hstrip : Text.strip? mark cs with
  | some more =>
      rw [Text.strip?_eq_some_iff.1 hstrip, List.append_assoc]
      exact Text.strip?_eq_some_iff.2 rfl
  | none =>
      -- A mark at the start of the whole would be at the start of the part, which is long enough.
      refine strip?_eq_none fun hprefix => ?_
      rcases List.prefix_of_prefix_length_le hprefix (List.prefix_append cs rest) h with ⟨more, rfl⟩
      exact absurd (hstrip.symm.trans (Text.strip?_eq_some_iff.2 rfl)) (by simp)

/-- What stands behind a word does not reach into the word. -/
theorem take_drop_append {k : Nat} (h : k < cs.length) (rest : List Char) :
    (cs ++ rest).take k = cs.take k ∧
      ∃ c ds, cs.drop k = c :: ds ∧ (cs ++ rest).drop k = c :: (ds ++ rest) := by
  refine ⟨List.take_append_of_le_length (Nat.le_of_lt h), ?_⟩
  rw [List.drop_append_of_le_length (Nat.le_of_lt h)]
  cases hdrop : cs.drop k with
  | nil => exact absurd (List.drop_eq_nil_iff.1 hdrop) (by omega)
  | cons c ds => exact ⟨c, ds, rfl, rfl⟩

/-- An end tag is told by itself and the character behind its name. -/
theorem startsWithEndTag_append (h : name.length + 3 ≤ cs.length) (rest : List Char) :
    startsWithEndTag name (cs ++ rest) = startsWithEndTag name cs := by
  have hmark : ['<', '/'].length ≤ cs.length := by
    simp only [List.length_cons, List.length_nil]
    omega
  rw [startsWithEndTag, startsWithEndTag, strip?_append hmark]
  cases hstrip : Text.strip? ['<', '/'] cs with
  | none => rfl
  | some more =>
      rw [Text.strip?_eq_some_iff.1 hstrip] at h
      -- Behind the mark and the name one character more is looked at.
      have hmore : name.length < more.length := by
        simp only [List.length_append, List.length_cons, List.length_nil] at h
        omega
      rcases take_drop_append hmore rest with ⟨htake, c, ds, hdrop, hdropped⟩
      simp only [Option.map_some, htake, hdrop, hdropped]

/-- So is the start or the end of a script inside a comment. -/
theorem startsWithScript_append {mark : List Char} (h : mark.length + 7 ≤ cs.length)
    (rest : List Char) : startsWithScript mark (cs ++ rest) = startsWithScript mark cs := by
  rw [startsWithScript, startsWithScript, strip?_append (by omega)]
  cases hstrip : Text.strip? mark cs with
  | none => rfl
  | some more =>
      rw [Text.strip?_eq_some_iff.1 hstrip, List.length_append] at h
      have hmore : 6 < more.length := by omega
      rcases take_drop_append hmore rest with ⟨htake, c, ds, hdrop, hdropped⟩
      simp only [Option.map_some, htake, hdrop, hdropped]

/-- Where inside its comments a script is, is told by a few characters. -/
theorem ScriptState.after_append (s : ScriptState) (h : 9 ≤ cs.length) (rest : List Char) :
    s.after (cs ++ rest) = s.after cs := by
  cases s with
  | normal =>
      rw [ScriptState.after, ScriptState.after,
        strip?_append (by simp only [List.length_cons, List.length_nil]; omega), Option.isSome_map]
  -- Behind a less-than sign come the six letters and one character more.
  | escaped hyphens =>
      have hlength : ['<'].length + 7 ≤ cs.length := Nat.le_of_succ_le h
      have hscript := startsWithScript_append hlength rest
      cases cs with
      | nil => simp at h
      | cons c cs =>
          rw [List.cons_append] at hscript ⊢
          simp only [ScriptState.after, hscript]
  | doubleEscaped hyphens =>
      have hlength : ['<', '/'].length + 7 ≤ cs.length := h
      have hscript := startsWithScript_append hlength rest
      cases cs with
      | nil => simp at h
      | cons c cs =>
          rw [List.cons_append] at hscript ⊢
          simp only [ScriptState.after, hscript]

/-- What is read in the way of a text stops where its end tag is. -/
theorem startsWithEndTag_endTag (hlowered : lowered name = name) (rest : List Char) :
    startsWithEndTag name (endTag { name } ++ rest) = true := by
  have hstrip : Text.strip? ['<', '/'] ('<' :: '/' :: (name.toList ++ '>' :: rest)) =
      some (name.toList ++ '>' :: rest) := Text.strip?_eq_some_iff.2 rfl
  have hlength : name.length = name.toList.length := String.length_toList.symm
  rw [endTag_append, startsWithEndTag, hstrip]
  simp only [hlength, List.take_left, List.drop_left, Bool.and_eq_true, beq_iff_eq]
  exact ⟨hlowered, by decide⟩

theorem breakAt_endTag (hlowered : lowered name = name) (rest : List Char) :
    breakAt (startsWithEndTag name) (endTag { name } ++ rest) = ([], endTag { name } ++ rest) := by
  have hstops := startsWithEndTag_endTag hlowered rest
  rw [endTag_append] at hstops ⊢
  rw [breakAt, if_pos hstops]

theorem length_endTag_le (name : String) (content : List Char) :
    name.length + 3 ≤ (content ++ endTag { name }).length := by
  simp [endTag, String.length_toList]

/-- A text that is broken before its end tag is broken there whatever follows. -/
theorem breakAt_append (hlowered : lowered name = name) {content : List Char}
    (h : breakAt (startsWithEndTag name) (content ++ endTag { name }) =
      (content, endTag { name })) (rest : List Char) :
    breakAt (startsWithEndTag name) (content ++ (endTag { name } ++ rest)) =
      (content, endTag { name } ++ rest) := by
  -- The induction is over the text; each position is decided without what follows.
  induction content with
  | nil => exact breakAt_endTag hlowered rest
  | cons c content ih =>
      have hstable := startsWithEndTag_append (length_endTag_le name (c :: content)) rest
      simp only [List.cons_append, List.append_assoc] at h hstable ⊢
      rw [breakAt] at h ⊢
      rw [hstable]
      split at h
      · simp at h
      · rename_i hgoes
        simp only [Prod.mk.injEq, List.cons.injEq, true_and] at h
        rw [if_neg hgoes, ih (Prod.ext h.1 h.2)]

/-- The same of a script. -/
theorem breakScript_append {s : ScriptState} {content : List Char}
    (h : breakScript s (content ++ endTag { name := "script" }) =
      (content, endTag { name := "script" })) (rest : List Char) :
    breakScript s (content ++ (endTag { name := "script" } ++ rest)) =
      (content, endTag { name := "script" } ++ rest) := by
  -- The state goes along; it, too, is decided without what follows.
  induction content generalizing s with
  | nil =>
      have hlowered : lowered "script" = "script" := by decide +kernel
      have hstops := startsWithEndTag_endTag hlowered rest
      have hstopped := startsWithEndTag_endTag hlowered []
      rw [List.nil_append] at h ⊢
      rw [endTag_append] at hstops hstopped ⊢
      rw [← List.append_nil (endTag _), endTag_append, breakScript] at h
      rw [breakScript]
      rw [hstopped] at h
      rw [hstops]
      -- Inside a script of a comment the end tag would not end the text.
      cases hends : s.mayEnd with
      | true => rfl
      | false =>
          rw [hends] at h
          simp at h
  | cons c content ih =>
      have hlength := length_endTag_le "script" (c :: content)
      have hstable := startsWithEndTag_append hlength rest
      have hafter := s.after_append hlength rest
      simp only [List.cons_append, List.append_assoc] at h hstable hafter ⊢
      rw [breakScript] at h ⊢
      rw [hstable, hafter]
      split at h
      · simp at h
      · rename_i hgoes
        simp only [Prod.mk.injEq, List.cons.injEq, true_and] at h
        rw [if_neg hgoes, ih (Prod.ext h.1 h.2)]

theorem breakLiteral_append (hlowered : lowered name = name) {content : List Char}
    (h : breakLiteral name (content ++ endTag { name }) = (content, endTag { name }))
    (rest : List Char) :
    breakLiteral name (content ++ (endTag { name } ++ rest)) =
      (content, endTag { name } ++ rest) := by
  unfold breakLiteral at h ⊢
  split
  · rename_i hscript
    rw [hscript, if_pos rfl] at h
    rw [hscript]
    exact breakScript_append h rest
  · rename_i hscript
    rw [if_neg hscript] at h
    exact breakAt_append hlowered h rest

end Breaking

section Inside

variable {r : Reading} {b : Builder} {c : Char} {cs : List Char}

namespace InText

theorem filled (h : InText r b) (items : List Item) (k : Nat) (f : List Entry) :
    InText r (b.filled items k f) :=
  { h with }

theorem look_eq (h : InText r b) (t : Token) : b.look t = .done (b.inText t) := by
  rw [look_html (isForeign_of_html h.html t), Builder.inMode, h.mode]

theorem accept_eq (h : InText r b) {t : Token} (ht : t ≠ .doctype) : b.accept t = b.inText t := by
  have hsame : { b with skipsLineFeed := false } = b := by rw [← h.skipsLineFeed]
  have hlooks : b.looks = 4 * b.stack.length + 7 + 1 := rfl
  simp only [Builder.accept, h.skipsLineFeed, Bool.false_eq_true, if_false]
  rw [hsame, hlooks, Builder.lookAgain, h.look_eq]

theorem accept_text (h : InText r b) (hne : cs ≠ []) :
    b.accept (.text cs) = b.filled [.text (String.ofList cs)] b.nextId b.formatting := by
  have hempty : cs.isEmpty = false := List.isEmpty_eq_false_iff.2 hne
  rw [h.accept_eq (by simp), Builder.inText, Builder.insertText, hempty, if_neg Bool.false_ne_true]
  simp only [Builder.insertItem, Builder.placeFor, h.fostering, Bool.false_and,
    Bool.false_eq_true, if_false, Item.insert, Builder.filled, Item.appendEach, List.foldl_cons,
    List.foldl_nil]

/-- A piece is cut in the way in which the text is read. -/
theorem grow_piece (h : InText r b) {t : Token} {rest : List Char}
    (hnext : next r b.currentIsForeign c cs = ⟨[t], rest, false⟩) :
    grow b (c :: cs) = grow (b.accept t) rest := by
  rw [← h.reading] at hnext
  exact grow_of_next hnext

end InText

variable {name : String} {d : Char}

/-- The end tag is cut as a whole, with a byte order mark behind it if it is that of a
    script. -/
theorem next_endTag_text (hname : name ∈ escapableNames ++ literalNames) (foreign : Bool)
    (rest : List Char) (hmark : name = "script" → rest.head? ≠ some '\uFEFF') :
    next (textReading name) foreign '<' ('/' :: (name.toList ++ '>' :: rest)) =
      ⟨[.endTag name], rest, false⟩ := by
  rcases textNames_spec hname with ⟨hlowered, htag, _⟩
  have hwritable : Writable { name } := ⟨htag, by simp⟩
  have hread := readTag_written hwritable endTagOf rest
  simp only [List.flatMap_nil, List.nil_append] at hread
  -- At the start of the text the run is empty, so the tag is the next piece.
  have hbroken : nextBroken ([], '<' :: '/' :: (name.toList ++ '>' :: rest)) =
      ⟨[.endTag name], rest, false⟩ := by
    have hless : ('<' : Char) ≠ '&' := by decide
    simp only [nextBroken, List.head?_cons, Option.some.injEq, if_neg hless,
      List.drop_succ_cons, List.drop_zero, hread]
    rw [endTagOf, tokenOf, hlowered]
  have hstops := startsWithEndTag_endTag hlowered rest
  rw [endTag_append] at hstops
  -- Each way of reading stops at once.
  unfold textReading
  split
  · rw [next, breakAt, hstops, Bool.or_true, if_pos rfl, hbroken]
  split
  · rename_i hscript
    rw [hscript] at hstops hbroken hmark ⊢
    have hrestarted : (⟨[.endTag "script"], rest, false⟩ : Piece).restarted =
        ⟨[.endTag "script"], Text.dropMark rest, false⟩ := rfl
    have hends : ScriptState.normal.mayEnd = true := rfl
    rw [next, breakScript, hstops, hends, Bool.true_and, if_pos rfl, hbroken, hrestarted,
      Text.dropMark_of_unmarked (hmark rfl)]
  · rw [next, breakAt, if_pos hstops, hbroken]

/-- The end tag closes the element, and reading goes on as before it. -/
theorem InText.grow_endTag (h : InText (textReading name) b)
    (hname : name ∈ escapableNames ++ literalNames) {rest : List Char}
    (hmark : name = "script" → rest.head? ≠ some '\uFEFF') :
    grow b (endTag { name } ++ rest) =
      grow { b.pop with mode := b.returnMode, returnMode := .inBody, reading := .data } rest := by
  rw [endTag_append, h.grow_piece (next_endTag_text hname _ rest hmark), h.accept_eq (by simp)]
  rfl

/-- What is written as it is is one piece. -/
theorem InText.grow_literal (h : InText (textReading name) b)
    (hescapable : escapableNames.contains name = false) (hlowered : lowered name = name)
    (hne : cs ≠ []) (hnull : '\x00' ∉ cs)
    (hbreak : breakLiteral name (cs ++ endTag { name }) = (cs, endTag { name }))
    (rest : List Char) :
    grow b (cs ++ (endTag { name } ++ rest)) =
      grow (b.filled [.text (String.ofList cs)] b.nextId b.formatting)
        (endTag { name } ++ rest) := by
  have hbreak := breakLiteral_append hlowered hbreak rest
  cases cs with
  | nil => exact absurd rfl hne
  | cons c cs =>
      have hpiece : nextBroken (c :: cs, endTag { name } ++ rest) =
          ⟨[.text (c :: cs)], endTag { name } ++ rest, false⟩ := by
        rw [nextBroken, map_replaceNull hnull]
      have hnext (foreign : Bool) : next (textReading name) foreign c
          (cs ++ (endTag { name } ++ rest)) =
            ⟨[.text (c :: cs)], endTag { name } ++ rest, false⟩ := by
        -- A script ends where its comments allow it, any other text at the first end tag.
        unfold textReading
        rw [hescapable, if_neg Bool.false_ne_true]
        rw [List.cons_append] at hbreak
        unfold breakLiteral at hbreak
        split
        · rename_i hscript
          rw [if_pos hscript] at hbreak
          rw [next, hbreak, hpiece]
          rfl
        · rename_i hscript
          rw [if_neg hscript] at hbreak
          rw [next, hbreak, hpiece]
      rw [List.cons_append, h.grow_piece (hnext _), h.accept_text (List.cons_ne_nil _ _)]

/-- Where references are decoded, a reference is one piece. -/
theorem next_reference (name : String) {d : Char} (h : Reference.Names d c cs) (foreign : Bool)
    (rest : List Char) :
    next (.escapable name) foreign '&' (c :: cs ++ rest) = ⟨[.text [d]], rest, false⟩ := by
  have hstops : ((c :: cs ++ rest).cons '&').head? = some '&' := rfl
  rw [next, breakAt, hstops]
  simp only [decide_true, Bool.true_or, if_true, nextBroken, List.head?_cons, List.drop_succ_cons,
    List.drop_zero, readReference, h.read?, Bool.not_true]

/-- Every other character begins a run. -/
theorem next_escapable (name : String) (hampersand : c ≠ '&') (hless : c ≠ '<') (hnull : c ≠ '\x00')
    (foreign : Bool) (cs : List Char) :
    next (.escapable name) foreign c cs =
      ⟨[.text (c :: (breakAt (breaksEscapable name) cs).1.map replaceNull)],
        (breakAt (breaksEscapable name) cs).2, false⟩ := by
  have hmark : Text.strip? ['<', '/'] (c :: cs) = none := by
    refine strip?_eq_none fun hprefix => ?_
    simp only [List.cons_prefix_cons] at hprefix
    exact hless hprefix.1.symm
  have hgoes : breaksEscapable name (c :: cs) = false := by
    simp [breaksEscapable, startsWithEndTag, hmark, hampersand]
  have hnext : next (.escapable name) foreign c cs =
      nextBroken (breakAt (breaksEscapable name) (c :: cs)) := rfl
  rw [hnext, breakAt, hgoes, if_neg Bool.false_ne_true, nextBroken, List.map_cons, replaceNull,
    if_neg hnull]

/-- There, too, a character that is no markup may be read on its own. -/
theorem InText.grow_run (h : InText (.escapable name) b) (hampersand : c ≠ '&') (hless : c ≠ '<')
    (hnull : c ≠ '\x00') (rest : List Char) :
    grow b (c :: rest) =
      grow (b.filled [.text (String.ofList [c])] b.nextId b.formatting) rest := by
  have hpiece := h.grow_piece (next_escapable name hampersand hless hnull _ rest)
  have hwhole := append_breakAt (breaksEscapable name) rest
  cases hbreak : breakAt (breaksEscapable name) rest with
  | mk run more =>
      rw [hbreak] at hpiece hwhole
      rw [hpiece, h.accept_text (List.cons_ne_nil _ _), ← hwhole]
      cases run with
      | nil => rfl
      | cons d run =>
          -- The rest of the run joins the character.
          rw [← hwhole] at hbreak
          have hnext (foreign : Bool) : next (.escapable name) foreign d (run ++ more) =
              ⟨[.text ((d :: run).map replaceNull)], more, false⟩ := congrArg nextBroken hbreak
          have hfilled := h.filled [.text (String.ofList [c])] b.nextId b.formatting
          have hjoins := filled_filled_text b [c] ((d :: run).map replaceNull) b.nextId b.nextId
            b.formatting b.formatting
          rw [List.cons_append, hfilled.grow_piece (hnext _),
            hfilled.accept_text (by simp)]
          exact congrArg (grow · more) hjoins.symm

/-- What is written of a character is read as this character. -/
theorem InText.grow_escape (h : InText (.escapable name) b) (hd : d ≠ '\x00')
    (rest : List Char) :
    grow b (escapeTextChar d ++ rest) =
      grow (b.filled [.text (String.ofList [d])] b.nextId b.formatting) rest := by
  rcases escapeTextChar_cases d with ⟨c, cs, hescape, hnames⟩ | ⟨hampersand, hless, _, hescape⟩
  · rw [hescape, List.cons_append, h.grow_piece (next_reference _ hnames _ rest),
      h.accept_text (List.cons_ne_nil _ _)]
  · rw [hescape, List.singleton_append, h.grow_run hampersand hless hd]

/-- The text of an element is put in its place, in front of the end tag. -/
theorem InText.grow_contents (h : InText (textReading name) b)
    (hname : name ∈ escapableNames ++ literalNames) {children : List Node}
    (hfits : fitsAsText name children = true) (parent : Name) (rest : List Char) :
    grow b (writeAll (rawNames.contains name) children ++ (endTag { name } ++ rest)) =
      grow (b.filled (numberAll parent b.nextId children).1
        (numberAll parent b.nextId children).2 b.formatting) (endTag { name } ++ rest) := by
  rcases textNames_spec hname with ⟨hlowered, _, _, _, _, _, _, _, hraw⟩
  rcases fitsAsText_cases hfits with rfl | ⟨content, rfl, hne, hsteady, hcontent⟩
  · rw [writeAll, numberAll]
    rfl
  · have hnull := (not_mem_of_isSteady hsteady).1
    rw [writeAll, writeAll, List.append_nil, numberAll, numberAll, number, write, hraw]
    cases hescapable : escapableNames.contains name with
    -- With escapes: character by character, and their texts join.
    | true =>
        have hinside : InText (.escapable name) b := by
          rwa [textReading, if_pos hescapable] at h
        have hkind (b : Builder) (h : InText (.escapable name) b) (d : Char) :
            InText (.escapable name) (b.filled [.text (String.ofList [d])] b.nextId b.formatting) :=
          h.filled _ _ _
        have hgrow := grow_flatMap hkind
          (fun d hd b h rest => h.grow_escape (fun hd0 => hnull (hd0 ▸ hd)) rest) hinside hne
          (endTag { name } ++ rest)
        rw [String.ofList_toList] at hgrow
        exact hgrow
    -- Without escapes: as one piece.
    | false =>
        rw [hescapable, if_neg Bool.false_ne_true, beq_iff_eq] at hcontent
        have hgrow := h.grow_literal hescapable hlowered hne hnull hcontent rest
        rw [String.ofList_toList] at hgrow
        exact hgrow

/-- A line feed at the start of a text is left out, but there is none. -/
theorem InText.grow_skipping (h : InText (textReading name) b) (hname : name ∈ escapableNames)
    {children : List Node} (hfits : fitsAsText name children = true)
    (hfeed : ∀ content, children = [.text content] → content.toList.head? ≠ some '\n')
    (rest : List Char) :
    grow { b with skipsLineFeed := true } (writeAll false children ++ (endTag { name } ++ rest)) =
      grow b (writeAll false children ++ (endTag { name } ++ rest)) := by
  have hreading : b.reading = .escapable name := by
    rw [h.reading, textReading, if_pos (List.contains_iff_mem.2 hname)]
  rcases fitsAsText_cases hfits with rfl | ⟨content, rfl, hne, hsteady, _⟩
  -- An empty text has its end tag first, which is no text.
  · have hscript : name ≠ "script" := by
      rintro rfl
      exact absurd hname (by decide)
    have hnext := next_endTag_text (List.mem_append_left literalNames hname) b.currentIsForeign
      rest fun hname => absurd hname hscript
    rw [← h.reading] at hnext
    rw [writeAll, List.nil_append, endTag_append]
    exact Html.grow_skipping h.skipsLineFeed hnext rfl
  · have hnull := (not_mem_of_isSteady hsteady).1
    have hfeed := hfeed content rfl
    rw [writeAll, writeAll, List.append_nil, write, if_neg Bool.false_ne_true, escapeText]
    -- What is first in the text decides, whether as a reference or as itself.
    cases hcontent : content.toList with
    | nil => exact absurd hcontent hne
    | cons d ds =>
        rw [hcontent] at hfeed hnull
        have hd : d ≠ '\n' := fun heq => hfeed (congrArg some heq)
        have htext (run : List Char) :
            withoutLineFeed (.text (d :: run)) = some (.text (d :: run)) := if_pos hd
        rw [List.flatMap_cons, List.append_assoc]
        rcases escapeTextChar_cases d with
          ⟨c, cs, hescape, hnames⟩ | ⟨hampersand, hless, _, hescape⟩
        · have hnext := next_reference name hnames b.currentIsForeign
            (ds.flatMap escapeTextChar ++ (endTag { name } ++ rest))
          rw [← hreading] at hnext
          rw [hescape]
          exact Html.grow_skipping h.skipsLineFeed hnext (htext [])
        · have hnext := next_escapable name hampersand hless
            (fun hd0 => hnull (hd0 ▸ List.mem_cons_self)) b.currentIsForeign
            (ds.flatMap escapeTextChar ++ (endTag { name } ++ rest))
          rw [← hreading] at hnext
          rw [hescape]
          exact Html.grow_skipping h.skipsLineFeed hnext (htext _)

end Inside

section Elements

variable {names : List Name} {b : Builder} {t : Tag} {tag : TagToken}

/-- The start tag of an element that holds text only opens it in a body. -/
theorem Ready.startText (h : Ready names b) (hmem : tag.name ∈ escapableNames ++ literalNames)
    (hparagraph : tag.name = "xmp" → inParagraph names = false) :
    b.startInBody tag =
      { b.openText tag (textReading tag.name) with skipsLineFeed := tag.name == "textarea" } := by
  -- The body leaves out no line feed here.
  have hsame (r : Reading) :
      { b.openText tag r with skipsLineFeed := false } = b.openText tag r := by
    rw [← h.skipsLineFeed]
    rfl
  rcases tag with ⟨name, attributes, selfClosing⟩
  simp only [escapableNames, literalNames, List.mem_append, List.mem_cons, List.not_mem_nil,
    or_false, or_assoc] at hmem
  rcases hmem with rfl | rfl | rfl | rfl | rfl | rfl | rfl | rfl | rfl
  case inr.inl => rfl
  -- Only this one ends a paragraph, and none is open.
  case inr.inr.inr.inr.inl =>
    have hopen : b.startInBody ⟨"xmp", attributes, selfClosing⟩ =
        b.endParagraph.reopenFormatting.openText ⟨"xmp", attributes, selfClosing⟩
          (.raw "xmp") := rfl
    rw [hopen, h.endParagraph (hparagraph rfl), h.reopenFormatting]
    exact (hsame _).symm
  all_goals exact (hsame _).symm

theorem startMetadata_text (b : Builder) (hmem : tag.name ∈ ["style", "script"]) :
    b.startMetadata tag = b.openText tag (textReading tag.name) := by
  rcases tag with ⟨name, attributes, selfClosing⟩
  simp only [List.mem_cons, List.not_mem_nil, or_false] at hmem
  rcases hmem with rfl | rfl
  · rfl
  · rfl

/-- Style sheets and scripts may stand between the parts of a table, and scripts between the
    options of a choice. -/
theorem Ready.inMode_metadata (h : Ready names b)
    (hmode : modeFor names ∈ [.inTable, .inTableBody, .inRow] ∧ tag.name ∈ ["style", "script"] ∨
      modeFor names ∈ [.inSelect, .inSelectInTable] ∧ tag.name = "script") :
    b.inMode (.startTag tag) = .done (b.startMetadata tag) := by
  rw [Builder.inMode, h.mode]
  rcases tag with ⟨name, attributes, selfClosing⟩
  simp only [List.mem_cons, List.not_mem_nil, or_false] at hmode
  rcases hmode with ⟨hmode | hmode | hmode, rfl | rfl⟩ | ⟨hmode | hmode, rfl⟩
  all_goals
    rw [hmode]
    rfl

/-- The state behind the start tag is that inside the element. -/
theorem Ready.openText (h : Ready names b) (hlowered : lowered t.name = t.name)
    (hform : t.name ≠ "form") :
    b.openText (tokenOf t) (textReading t.name) = b.enteredText t := by
  have hname : (tokenOf t).name = t.name := hlowered
  have hnot : (Name.html t.name).isHtml "form" = false := by
    simpa [Name.isHtml, Name.html] using hform
  rw [Builder.openText, h.toStill.openElement, hname, Builder.enteredText]
  simp only [Builder.entered, hnot, Bool.false_eq_true, if_false]

/-- The start tag of an admitted element opens it. -/
theorem Ready.look_startText (h : Ready names b) (hadmits : admitsText names t.name = true) :
    b.look (.startTag (tokenOf t)) =
      .done { b.enteredText t with skipsLineFeed := t.name == "textarea" } := by
  simp only [admitsText, Bool.and_eq_true, Bool.or_eq_true, Bool.not_eq_true', bne_iff_ne, ne_eq,
    beq_iff_eq, List.contains_iff_mem] at hadmits
  rcases hadmits with ⟨⟨hmem, hreads⟩, hcases⟩
  rcases textNames_spec hmem with ⟨hlowered, _, hforeign, _, hform, _, _, hpart, _⟩
  have hname : (tokenOf t).name = t.name := hlowered
  have hhtml : b.isForeign (.startTag (tokenOf t)) = false :=
    isForeign_of_readsHtml (h.innermost_names ▸ hreads) rfl fun _ => by
      simp only [List.mem_append, not_or] at hforeign
      simpa [Token.starts, hname] using hforeign.2
  have hopen := h.openText hlowered hform
  have hdone (hmem : t.name ∈ ["style", "script"]) : b.startMetadata (tokenOf t) =
      { b.enteredText t with skipsLineFeed := t.name == "textarea" } := by
    have hall : ∀ n ∈ ["style", "script"], (n == "textarea") = false := by decide
    rw [startMetadata_text b (hname.symm ▸ hmem), hname, hopen, hall _ hmem, ← h.skipsLineFeed]
    rfl
  rcases hcases with (⟨hflow, hparagraph⟩ | ⟨hmetadata, hmode⟩) | ⟨hscript, hmode⟩
  · have hnamed : (tokenOf t).name ∈ escapableNames ++ literalNames := hname.symm ▸ hmem
    have hstart := h.startText hnamed fun hxmp =>
      hparagraph.resolve_left fun hne => hne (hname ▸ hxmp)
    rw [h.look_flow hflow hhtml (isPart_startTag (hname.symm ▸ hpart)), Builder.acceptInBody,
      hstart, hname, hopen]
  · rw [look_html hhtml, ← hdone hmetadata]
    exact h.inMode_metadata (.inl ⟨hmode, hname.symm ▸ hmetadata⟩)
  · rw [look_html hhtml, ← hdone (by rw [hscript]; decide)]
    exact h.inMode_metadata (.inr ⟨hmode, hname.trans hscript⟩)

/-- An element that holds text only is an element of HTML. -/
theorem childName_of_admitsText {name : String} (h : admitsText names name = true) :
    childName (innermost names) name = .html name := by
  have hall : ∀ n ∈ escapableNames ++ literalNames, n ≠ "svg" ∧ n ≠ "math" := by decide
  simp only [admitsText, Bool.and_eq_true, List.contains_iff_mem] at h
  rcases h with ⟨⟨hmem, hreads⟩, _⟩
  rw [childName, if_pos hreads, if_neg (hall _ hmem).1, if_neg (hall _ hmem).2]

/-- Only in a `textarea` a line feed would be left out behind the start tag. -/
theorem Ready.grow_enteredText (h : Ready names b) {children : List Node}
    (hfits : fitsAsText t.name children = true) (rest : List Char) :
    grow { b.enteredText t with skipsLineFeed := t.name == "textarea" }
      (writeAll (rawNames.contains t.name) children ++ (endTag t ++ rest)) =
    grow (b.enteredText t)
      (writeAll (rawNames.contains t.name) children ++ (endTag t ++ rest)) := by
  have hinside : InText (textReading t.name) (b.enteredText t) :=
    ⟨rfl, rfl, h.skipsLineFeed, h.fostering, rfl⟩
  have hend : endTag t = endTag { name := t.name } := rfl
  by_cases htextarea : t.name = "textarea"
  · have hfeed (content : String) (hchildren : children = [.text content]) :
        content.toList.head? ≠ some '\n' := by
      rw [hchildren, htextarea] at hfits
      rcases fitsAsText_cases hfits with hnil | ⟨_, hone, _, _, hcontent⟩
      · exact absurd hnil (List.cons_ne_nil _ _)
      · simp only [List.cons.injEq, Node.text.injEq, and_true] at hone
        rw [hone]
        simpa [escapableNames] using hcontent
    rw [hend]
    rw [htextarea] at hinside hfits ⊢
    exact InText.grow_skipping hinside (by decide) hfits hfeed rest
  · rw [beq_eq_false_iff_ne.2 htextarea, ← hinside.skipsLineFeed]

/-- Behind the end tag the state is that of an element that is left. -/
theorem Ready.left_enteredText (h : Ready names b) (hform : t.name ≠ "form") (items : List Item)
    (k : Nat) :
    { ((b.enteredText t).filled items k b.formatting).pop with
        mode := b.mode, returnMode := .inBody, reading := .data } =
      b.filled [.element b.nextId (.html t.name)
        (Foreign.attributesIn .html (tokenOf t).attributes) (Item.gather items)] k
        b.formatting := by
  have hkept : (b.entered (.html t.name) (Foreign.attributesIn .html (tokenOf t).attributes)
      b.formatting).form = b.form := by
    simp [Builder.entered, Name.isHtml, Name.html, hform]
  rw [← h.left_entered (.html t.name) _ items k b.formatting b.formatting b.formatting,
    ← h.returnMode, ← h.reading, ← hkept]
  rfl

/-- An element that holds text only is put in its place. -/
theorem Ready.grow_textElement (h : Ready names b) (hwritable : Writable t)
    (hadmits : admitsText names t.name = true) {children : List Node}
    (hfits : fitsAsText t.name children = true) (raw : Bool) {rest : List Char}
    (hmark : t.name = "script" → rest.head? ≠ some '\uFEFF') :
    grow b (write raw (.element t children) ++ rest) =
      grow (b.filled [(number b.current.name b.nextId (.element t children)).1]
        (number b.current.name b.nextId (.element t children)).2 b.formatting) rest := by
  have hmem : t.name ∈ escapableNames ++ literalNames := by
    simp only [admitsText, Bool.and_eq_true, List.contains_iff_mem] at hadmits
    exact hadmits.1.1
  rcases textNames_spec hmem with ⟨_, _, _, hvoid, hform, _⟩
  have hinside : InText (textReading t.name) (b.enteredText t) :=
    ⟨rfl, rfl, h.skipsLineFeed, h.fostering, rfl⟩
  have hchild := childName_of_admitsText hadmits
  rw [h.innermost_names] at hchild
  have hend : endTag t = endTag { name := t.name } := rfl
  -- The start tag, the text and the end tag are read one after the other.
  rw [write, if_neg (by rw [hvoid]; decide)]
  simp only [List.append_assoc, List.cons_append]
  rw [startTag_append, h.grow_piece (next_startTag hwritable _ _),
    h.accept (by simp) (h.look_startText hadmits), h.grow_enteredText hfits, hend,
    hinside.grow_contents hmem hfits (.html t.name),
    (hinside.filled _ _ _).grow_endTag hmem hmark, number, hchild]
  exact congrArg (grow · rest) (h.left_enteredText hform _ _)

end Elements

end Html

end SoleRoot

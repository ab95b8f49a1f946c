import SoleRoot.Proofs.Html.Nesting
import SoleRoot.Proofs.Text.Runs

/-!
# Reading Written Texts and Comments

What a reader does with the first piece of what was written, and with texts and comments
piece by piece.

Texts mostly need no condition on what follows them. A reader takes characters in runs,
but taking them one by one has the same effect, since a text joins the text before
it.

Between the parts of a table it is otherwise. Only white space stays there, and it waits
until something else comes, or might be taken together with characters that end the part. So
it is asked that markup follows, which is read in one look: then it does not matter
that the text was still waiting. `Continues` says this of what follows.

## Main definitions

* `Begins`: A text begins with a piece that is one token.
* `Continues`: Behind a text comes markup that is read in one look.
* `fitsText`: Whether a text is read as it was written.

## Theorems

* `Receptive.grow_run`: Characters may be read one by one.
* `Receptive.grow_text`: A text is put in its place.
* `Ready.grow_space`: So is white space between parts.
* `Still.grow_comment`: So is a comment.
-/

namespace SoleRoot

namespace Html

open Builder

/-- Whether a text begins with a piece that is one token wherever it is read. -/
def Begins (cs : List Char) (t : Token) : Prop :=
  ∃ c ds rest, cs = c :: ds ∧ ∀ foreign, next .data foreign c ds = ⟨[t], rest, false⟩

/-- Whether a token is a tag or a comment. -/
def Token.isMarkup : Token → Bool
  | .startTag _ => true
  | .endTag _ => true
  | .comment _ => true
  | _ => false

/-- Whether a text begins with markup that is done with in one look. -/
def Continues (b : Builder) (cs : List Char) : Prop :=
  ∃ t c, Begins cs t ∧ t.isMarkup = true ∧ b.look t = .done c

/-- Whether white space waits until something else comes. -/
def waits (names : List Name) : Bool :=
  (innermost names).isIn Name.tableParts &&
    [.inTable, .inTableBody, .inRow].contains (modeFor names)

/-- Whether a text is read as it was written, inside the open elements `names`. `raw` says
    whether it is written without escapes. -/
def fitsText (raw : Bool) (names : List Name) (content : List Char) : Bool :=
  content ≠ [] && content.all isSteady && (!raw || content.all isRunChar) &&
    (takesText (modeFor names) ||
      content.all Text.isHtmlSpace &&
        (waits names || modeFor names == .inColumnGroup && readsHtml (innermost names)))

/-- The state while white space waits. -/
def Builder.waiting (b : Builder) (content : List Char) : Builder :=
  { b with mode := .inTableText, returnMode := b.mode, pending := content }

section Beginnings

variable {t : Tag} {content cs : List Char}

/-- A written start tag begins with a bracket and the name. -/
theorem startTag_append (t : Tag) (rest : List Char) :
    startTag t ++ '>' :: rest =
      '<' :: (t.name.toList ++ (t.attributes.flatMap writeAttribute ++ '>' :: rest)) := by
  simp [startTag]

theorem endTag_append (t : Tag) (rest : List Char) :
    endTag t ++ rest = '<' :: '/' :: (t.name.toList ++ '>' :: rest) := by
  simp [endTag]

/-- A written start tag is the first piece of what is written. -/
theorem begins_startTag (h : Writable t) (rest : List Char) :
    Begins (startTag t ++ '>' :: rest) (.startTag (tokenOf t)) :=
  ⟨_, _, rest, startTag_append t rest, fun foreign => next_startTag h foreign rest⟩

/-- So is a written end tag. -/
theorem begins_endTag (h : isTagName t.name.toList = true) (rest : List Char) :
    Begins (endTag t ++ rest) (.endTag (lowered t.name)) :=
  ⟨_, _, rest, endTag_append t rest, fun foreign => next_endTag h foreign rest⟩

/-- So is a comment that nothing in it ends. -/
theorem begins_comment {content : String} (h : Closeable content.toList) (rest : List Char) :
    Begins (writeComment content ++ rest) (.comment content) := by
  refine ⟨_, _, rest, rfl, fun foreign => ?_⟩
  have hnext := next_comment h foreign rest
  rw [String.ofList_toList] at hnext
  simpa [writeComment] using hnext

/-- A text begins with a piece of it, which starts with a line feed only if the text does. -/
theorem exists_begins_text {raw : Bool} {content : String} (hne : content.toList ≠ [])
    (hsteady : content.toList.all isSteady = true)
    (hraw : (!raw || content.toList.all isRunChar) = true)
    (hfeed : content.toList.head? ≠ some '\n') (rest : List Char) :
    ∃ t, Begins (write raw (.text content) ++ rest) t ∧ withoutLineFeed t = some t := by
  have hnull := (not_mem_of_isSteady hsteady).1
  rw [write]
  cases hcontent : content.toList with
  | nil => exact absurd hcontent hne
  | cons d ds =>
      rw [hcontent] at hfeed hraw hnull
      have hd : d ≠ '\n' := fun heq => hfeed (congrArg some heq)
      have htext (run : List Char) : withoutLineFeed (.text (d :: run)) = some (.text (d :: run)) :=
        if_pos hd
      have hrun (hd : isRunChar d = true) (ds : List Char) :
          ∃ t, Begins (d :: ds) t ∧ withoutLineFeed t = some t :=
        ⟨_, ⟨d, ds, _, rfl, fun foreign => next_run hd foreign ds⟩, htext _⟩
      cases raw with
      | true =>
          rw [Bool.not_true, Bool.false_or, List.all_cons, Bool.and_eq_true] at hraw
          exact hrun hraw.1 _
      | false =>
          rw [if_neg Bool.false_ne_true, escapeText, List.flatMap_cons, List.append_assoc]
          rcases escapeTextChar_cases d with
            ⟨c, cs, hescape, hnames⟩ | ⟨hampersand, hless, _, hescape⟩
          · rw [hescape]
            exact ⟨_, ⟨'&', _, _, rfl, fun foreign => next_escape hnames foreign _⟩, htext []⟩
          · have hd0 : d ≠ '\x00' := fun heq => hnull (heq ▸ List.mem_cons_self)
            rw [hescape]
            exact hrun (by simp [isRunChar, hampersand, hless, hd0]) _

/-- Where a tag or a comment begins no run of characters does. -/
theorem Begins.not_isRunChar {u : Token} (h : Begins cs u) (hu : u.isMarkup = true) :
    ∀ c ∈ cs.head?, isRunChar c = false := by
  rcases h with ⟨c, ds, rest, rfl, hnext⟩
  refine Text.forall_mem_head?_cons.2 (Bool.eq_false_iff.2 fun hc => ?_)
  have hrun := next_run hc false ds
  rw [hnext] at hrun
  simp only [Piece.mk.injEq, List.cons.injEq] at hrun
  rw [hrun.1.1] at hu
  exact Bool.false_ne_true hu

end Beginnings

section Pieces

variable {names : List Name} {b : Builder} {c d : Char} {cs : List Char}

/-- A piece that is one token is taken by the rules for this token. -/
theorem grow_of_next {t : Token} {rest : List Char}
    (hnext : next b.reading b.currentIsForeign c cs = ⟨[t], rest, false⟩) :
    grow b (c :: cs) = grow (b.accept t) rest := by
  rw [grow]
  simp only [hnext, Builder.take, List.foldl_cons, List.foldl_nil, Bool.false_eq_true, if_false]

/-- Between two nodes everything counts as markup. -/
theorem Still.grow_piece (h : Still names b) {t : Token} {rest : List Char}
    (hnext : next .data b.currentIsForeign c cs = ⟨[t], rest, false⟩) :
    grow b (c :: cs) = grow (b.accept t) rest := by
  rw [← h.reading] at hnext
  exact grow_of_next hnext

/-- A line feed that is to be left out does not matter if none comes. -/
theorem grow_skipping (hskips : b.skipsLineFeed = false) {t : Token} {rest : List Char}
    (hnext : next b.reading b.currentIsForeign c cs = ⟨[t], rest, false⟩)
    (ht : withoutLineFeed t = some t) :
    grow { b with skipsLineFeed := true } (c :: cs) = grow b (c :: cs) := by
  have hskipping : next ({ b with skipsLineFeed := true } : Builder).reading
      ({ b with skipsLineFeed := true } : Builder).currentIsForeign c cs = ⟨[t], rest, false⟩ :=
    hnext
  -- The token has no line feed to lose, and taking it ends the waiting.
  have haccept : ({ b with skipsLineFeed := true } : Builder).accept t = b.accept t := by
    simp only [Builder.accept, if_true, ht, hskips, Bool.false_eq_true, if_false]
  rw [grow, grow]
  simp only [hskipping, hnext, Builder.take, List.foldl_cons, List.foldl_nil, Bool.false_eq_true,
    if_false, haccept]

/-- Text that was read in one look is put in its place. -/
theorem Receptive.accept_text (h : Receptive names b) {content : List Char} (hne : content ≠ []) :
    b.accept (.text content) = b.filled [.text (String.ofList content)] b.nextId b.formatting :=
  h.accept (by simp) (h.look_text hne)

/-- Characters that are no markup are read at once. -/
theorem Receptive.grow_takeWhile (h : Receptive names b) (hc : isRunChar c = true)
    (rest : List Char) :
    grow b (c :: rest) =
      grow (b.filled [.text (String.ofList (c :: rest.takeWhile isRunChar))] b.nextId
        b.formatting) (rest.dropWhile isRunChar) := by
  rw [h.grow_piece (next_run hc _ rest), h.accept_text (List.cons_ne_nil _ _)]

/-- A character that is no markup may be read on its own. -/
theorem Receptive.grow_run (h : Receptive names b) (hc : isRunChar c = true) (rest : List Char) :
    grow b (c :: rest) =
      grow (b.filled [.text (String.ofList [c])] b.nextId b.formatting) rest := by
  rw [h.grow_takeWhile hc]
  cases rest with
  | nil => rfl
  | cons d rest =>
      by_cases hd : isRunChar d = true
      · -- The rest of the run joins the character.
        rw [(h.filled_text [c]).grow_takeWhile hd, filled_filled_text,
          List.takeWhile_cons_of_pos hd, List.dropWhile_cons_of_pos hd]
        rfl
      · rw [List.takeWhile_cons_of_neg hd, List.dropWhile_cons_of_neg hd]

/-- What is written of a character is read as this character. -/
theorem Receptive.grow_escape (h : Receptive names b) (hd : d ≠ '\x00') (rest : List Char) :
    grow b (escapeTextChar d ++ rest) =
      grow (b.filled [.text (String.ofList [d])] b.nextId b.formatting) rest := by
  rcases escapeTextChar_cases d with ⟨c, cs, hescape, hnames⟩ | ⟨hampersand, hless, _, hescape⟩
  · rw [hescape, List.cons_append, h.grow_piece (next_escape hnames _ rest),
      h.accept_text (List.cons_ne_nil _ _)]
  · have hrun : isRunChar d = true := by simp [isRunChar, hampersand, hless, hd]
    rw [hescape, List.singleton_append, h.grow_run hrun]

/-- A text is read if each of its characters is, in states that characters do not change
    in kind. -/
theorem grow_flatMap {kind : Builder → Prop} {spell : Char → List Char}
    (hkind : ∀ b, kind b → ∀ d, kind (b.filled [.text (String.ofList [d])] b.nextId b.formatting))
    (hspell : ∀ d ∈ cs, ∀ b, kind b → ∀ rest, grow b (spell d ++ rest) =
      grow (b.filled [.text (String.ofList [d])] b.nextId b.formatting) rest)
    (h : kind b) (hne : cs ≠ []) (rest : List Char) :
    grow b (cs.flatMap spell ++ rest) =
      grow (b.filled [.text (String.ofList cs)] b.nextId b.formatting) rest := by
  induction cs generalizing b with
  | nil => exact absurd rfl hne
  | cons c cs ih =>
      -- The first character is read, and the induction reads the rest in the state behind it.
      rcases List.forall_mem_cons.1 hspell with ⟨hc, hcs⟩
      rw [List.flatMap_cons, List.append_assoc, hc b h]
      by_cases hnil : cs = []
      · rw [hnil, List.flatMap_nil, List.nil_append]
      · rw [ih hcs (hkind b h c) hnil, filled_filled_text]
        rfl

/-- A text is put in its place. -/
theorem Receptive.grow_text (h : Receptive names b) {raw : Bool} {content : String}
    (hne : content.toList ≠ []) (hsteady : content.toList.all isSteady = true)
    (hraw : (!raw || content.toList.all isRunChar) = true) (rest : List Char) :
    grow b (write raw (.text content) ++ rest) =
      grow (b.filled [.text content] b.nextId b.formatting) rest := by
  have hnull := (not_mem_of_isSteady hsteady).1
  have hkind (b : Builder) (h : Receptive names b) (d : Char) :
      Receptive names (b.filled [.text (String.ofList [d])] b.nextId b.formatting) :=
    h.filled_text [d]
  -- Each character is one piece when it is escaped, and one of a run when it is not.
  cases raw with
  | false =>
      have hgrow := grow_flatMap hkind
        (fun d hd b h rest => h.grow_escape (fun hd0 => hnull (hd0 ▸ hd)) rest) h hne rest
      rw [String.ofList_toList] at hgrow
      exact hgrow
  | true =>
      rw [Bool.not_true, Bool.false_or, List.all_eq_true] at hraw
      have hspell : ∀ d ∈ content.toList, ∀ b, Receptive names b → ∀ rest, grow b ([d] ++ rest) =
          grow (b.filled [.text (String.ofList [d])] b.nextId b.formatting) rest :=
        fun d hd b h rest => h.grow_run (hraw d hd) rest
      have hgrow := grow_flatMap hkind hspell h hne rest
      rw [String.ofList_toList, List.flatMap_singleton'] at hgrow
      exact hgrow

/-- A comment is put in its place. -/
theorem Still.grow_comment (h : Still names b) (hmode : b.mode ≠ .inText ∧ b.mode ≠ .inTableText)
    {content : String} (hclose : Closeable content.toList) (rest : List Char) :
    grow b (writeComment content ++ rest) =
      grow (b.filled [.comment content] b.nextId b.formatting) rest := by
  have hpiece := h.grow_piece (next_comment hclose _ rest)
  rw [String.ofList_toList] at hpiece
  rw [← h.accept (by simp) (h.look_comment hmode content), ← hpiece]
  simp [writeComment]

end Pieces

section Spaces

variable {names : List Name} {b : Builder} {t : Token} {content rest : List Char}

/-- White space is no markup. -/
theorem isRunChar_of_isHtmlSpace {c : Char} (h : Text.isHtmlSpace c = true) :
    isRunChar c = true := by
  have hnone : ∀ d ∈ ['<', '&', '\x00'], Text.isHtmlSpace d = false := by
    simp [Text.isHtmlSpace, Text.isXmlSpace]
  have hne (d : Char) (hd : d ∈ ['<', '&', '\x00']) : c ≠ d := by
    rintro rfl
    exact absurd h (by rw [hnone _ hd]; decide)
  simp [isRunChar, hne]

/-- White space is written as it is. -/
theorem write_space (raw : Bool) {content : String}
    (hspace : content.toList.all Text.isHtmlSpace = true) :
    write raw (.text content) = content.toList := by
  have hnone : ∀ d ∈ ['&', '<', '>'], Text.isHtmlSpace d = false := by
    simp [Text.isHtmlSpace, Text.isXmlSpace]
  have hescape : escapeText content.toList = content.toList.flatMap ([·]) := by
    refine List.flatMap_congr fun d hd => ?_
    have hne (e : Char) (he : e ∈ ['&', '<', '>']) : d ≠ e := by
      rintro rfl
      exact absurd (List.all_eq_true.1 hspace _ hd) (by rw [hnone _ he]; decide)
    simp [escapeTextChar, hne]
  rw [write, hescape, List.flatMap_singleton', ite_self]

/-- White space in front of markup is one piece. -/
theorem next_space {c : Char} {cs : List Char} (hspace : (c :: cs).all Text.isHtmlSpace = true)
    (hrest : ∀ d ∈ rest.head?, isRunChar d = false) (foreign : Bool) :
    next .data foreign c (cs ++ rest) = ⟨[.text (c :: cs)], rest, false⟩ := by
  rw [List.all_eq_true] at hspace
  have hrun := fun d hd => isRunChar_of_isHtmlSpace (hspace d hd)
  rw [next_run (hrun c List.mem_cons_self),
    Text.takeWhile_append_stop (fun d hd => hrun d (List.mem_cons_of_mem _ hd)) hrest,
    Text.dropWhile_append_stop (fun d hd => hrun d (List.mem_cons_of_mem _ hd)) hrest]

/-- In a table white space starts to wait. -/
theorem Ready.accept_waiting (h : Ready names b) (hwaits : waits names = true) :
    b.accept (.text content) = b.waiting content := by
  rw [waits, Bool.and_eq_true, h.innermost_names] at hwaits
  rcases hwaits with ⟨hpart, hmode⟩
  have hspace : b.current.name.space = .html := by
    rw [Name.isIn, Bool.and_eq_true, beq_iff_eq] at hpart
    exact hpart.1
  -- The first look begins the waiting, and the second one lets the text wait.
  have hfirst : b.look (.text content) = .again (.text content) (b.waiting []) := by
    have htable : b.startTableText (.text content) = .again (.text content) (b.waiting []) := by
      rw [Builder.startTableText, Builder.currentIsIn, hpart, if_pos rfl]
      rfl
    rw [look_html (isForeign_of_html hspace _), Builder.inMode, h.mode]
    simp only [List.contains_iff_mem, List.mem_cons, List.not_mem_nil, or_false] at hmode
    rcases hmode with hmode | hmode | hmode
    all_goals
      rw [hmode]
      exact htable
  have hsecond : (b.waiting []).look (.text content) = .done (b.waiting content) :=
    look_html (isForeign_of_html hspace _)
  have hlooks : b.looks = 4 * b.stack.length + 6 + 1 + 1 := rfl
  rw [h.accept_eq (by simp), hlooks, Builder.lookAgain, hfirst]
  simp only [Builder.lookAgain, hsecond]

/-- White space that waits is put in its place when markup comes. -/
theorem Ready.accept_behind (h : Ready names b) (hwaits : waits names = true) (hne : content ≠ [])
    (hspace : content.all Text.isHtmlSpace = true) (hmarkup : t.isMarkup = true) {d : Builder}
    (hlook : (b.filled [.text (String.ofList content)] b.nextId b.formatting).look t = .done d) :
    (b.waiting content).accept t = d := by
  rw [waits, Bool.and_eq_true, h.innermost_names] at hwaits
  have hhtml : b.current.name.space = .html := by
    rw [Name.isIn, Bool.and_eq_true, beq_iff_eq] at hwaits
    exact hwaits.1.1
  -- Only white space has waited, so it goes where it stood and is not moved out of the table.
  have hplaced : ({ (b.waiting content).placePending with
      mode := (b.waiting content).returnMode, returnMode := .inBody } : Builder) =
        b.filled [.text (String.ofList content)] b.nextId b.formatting := by
    have hempty : content.isEmpty = false := List.isEmpty_eq_false_iff.2 hne
    simp only [Builder.placePending, Builder.waiting, hspace, if_true, Builder.insertText, hempty,
      Bool.false_eq_true, if_false, Builder.insertItem, Builder.placeFor, h.fostering,
      Bool.false_and, Item.insert, Builder.filled, Item.appendEach, List.foldl_cons,
      List.foldl_nil, ← h.returnMode, ← h.pending]
    rfl
  have hfirst : (b.waiting content).look t = .again t
      (b.filled [.text (String.ofList content)] b.nextId b.formatting) := by
    rw [look_html (b := b.waiting content) (isForeign_of_html hhtml _), ← hplaced]
    cases t with
    | text | null | doctype => exact absurd hmarkup Bool.false_ne_true
    | _ => rfl
  have hlooks : (b.waiting content).looks = 4 * b.stack.length + 6 + 1 + 1 := rfl
  have hkept : (b.waiting content).skipsLineFeed = false := h.skipsLineFeed
  have hsame : { b.waiting content with skipsLineFeed := false } = b.waiting content := by
    rw [← hkept]
  have haccept : (b.waiting content).accept t =
      (b.waiting content).lookAgain (b.waiting content).looks t := by
    cases t with
    | text | null | doctype => exact absurd hmarkup Bool.false_ne_true
    | _ =>
        simp only [Builder.accept, hkept, Bool.false_eq_true, if_false]
        rw [hsame]
  rw [haccept, hlooks, Builder.lookAgain, hfirst]
  simp only [Builder.lookAgain, hlook]

/-- In a group of columns white space is put in its place at once. -/
theorem Ready.look_space (h : Ready names b) (hmode : modeFor names = .inColumnGroup)
    (hreads : readsHtml (innermost names) = true) (hne : content ≠ [])
    (hspace : content.all Text.isHtmlSpace = true) :
    b.look (.text content) =
      .done (b.filled [.text (String.ofList content)] b.nextId b.formatting) := by
  rw [h.innermost_names] at hreads
  rw [List.all_eq_true] at hspace
  have htake : content.takeWhile Text.isHtmlSpace = content := List.takeWhile_eq_self_iff.2 hspace
  have hdrop : content.dropWhile Text.isHtmlSpace = [] := List.dropWhile_eq_nil_iff.2 hspace
  rw [look_html (isForeign_of_readsHtml hreads rfl fun _ => rfl), Builder.inMode, h.mode, hmode]
  simp only [Builder.inColumnGroup, Builder.columnGroupText, htake, hdrop, h.insertText hne]

/-- White space between parts is put in its place if markup follows. -/
theorem Ready.grow_space (h : Ready names b)
    (hparts :
      (waits names || modeFor names == .inColumnGroup && readsHtml (innermost names)) = true)
    (hne : content ≠ []) (hspace : content.all Text.isHtmlSpace = true)
    (hrest : Continues (b.filled [.text (String.ofList content)] b.nextId b.formatting) rest) :
    grow b (content ++ rest) =
      grow (b.filled [.text (String.ofList content)] b.nextId b.formatting) rest := by
  rcases hrest with ⟨t, d, hbegins, hmarkup, hlook⟩
  have hstop := hbegins.not_isRunChar hmarkup
  cases content with
  | nil => exact absurd rfl hne
  | cons c cs =>
      rw [List.cons_append, h.grow_piece (next_space hspace hstop _)]
      rw [Bool.or_eq_true, Bool.and_eq_true, beq_iff_eq] at hparts
      rcases hparts with hwaits | ⟨hmode, hreads⟩
      · -- The markup is looked at twice, and the second time the space is in its place.
        rcases hbegins with ⟨e, ds, more, rfl, hnext⟩
        have haccept := h.accept_behind hwaits hne hspace hmarkup hlook
        have hwaiting : next (b.waiting (c :: cs)).reading (b.waiting (c :: cs)).currentIsForeign
            e ds = ⟨[t], more, false⟩ := by
          have hreading : (b.waiting (c :: cs)).reading = .data := h.reading
          rw [hreading]
          exact hnext _
        have hdoctype : t ≠ .doctype := by
          rintro rfl
          exact Bool.false_ne_true hmarkup
        rw [h.accept_waiting hwaits, (h.filled_text (c :: cs)).grow_piece (hnext _),
          (h.filled_text (c :: cs)).accept hdoctype hlook, grow]
        simp only [hwaiting, Builder.take, List.foldl_cons, List.foldl_nil, Bool.false_eq_true,
          if_false, haccept]
      · rw [h.accept (by simp) (h.look_space hmode hreads hne hspace)]

end Spaces

end Html

end SoleRoot

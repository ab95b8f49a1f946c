import SoleRoot.Html.Reference
import SoleRoot.Text.Search
import SoleRoot.Text.Space

/-!
# Tokens of HTML

Cutting a text into tags, comments and runs of characters. Any text can be
cut.

What comes next depends on the element that the tree builder has just opened:
inside a title only references count, inside a style sheet or a script nothing
but the end tag does. `Reading` says which of these holds, and `next` cuts one
piece under it. A piece is usually one token. It can be none, when a tag is
never finished or an end tag has no name, and it can be several, when null
characters split the text of a section.

Null characters are kept apart from text only where the tree builder decides
their fate; elsewhere the replacement character takes their place at once.
A letter of a tag's or an attribute's name is put in lower case if it is one of
the twenty-six.

The end tag of a script interrupts the reading, since the script may run before
what follows is looked at. What follows is then a start of its own, where a byte
order mark is left out.

## Main definitions

* `TagToken`, `Token`: A tag, and all kinds of tokens.
* `Reading`: What counts as markup.
* `Piece`: Tokens and what follows them.
* `next`: The first piece of a text.

## Theorems

* `next_suffix`: What follows a piece is the end of the text.
-/

namespace SoleRoot

namespace Html

/-- A start tag: its name, its attributes in order, none of them twice, and
    whether it closes itself. -/
structure TagToken where
  name : String
  attributes : List (String × String) := []
  selfClosing : Bool := false
  deriving DecidableEq, Repr, Inhabited

/-- What a text is cut into. -/
inductive Token where
  | startTag (tag : TagToken)
  | endTag (name : String)
  | comment (content : String)
  /-- A run of characters that is not empty. -/
  | text (content : List Char)
  /-- A null character. -/
  | null
  | doctype
  deriving DecidableEq, Repr, Inhabited

/-- What counts as markup in the text to come. -/
inductive Reading where
  /-- Everything. -/
  | data
  /-- References and the end tag of `name`. -/
  | escapable (name : String)
  /-- The end tag of `name`. -/
  | raw (name : String)
  /-- The end tag of a script outside its comments. -/
  | script
  /-- Nothing. -/
  | plain
  deriving DecidableEq, Repr, Inhabited

/-- Tokens that were cut off a text, and what follows them. -/
structure Piece where
  tokens : List Token
  rest : List Char
  /-- Whether a fault was met before the tokens. -/
  faulty : Bool := false
  deriving DecidableEq, Repr

/-- The replacement character in place of a null character. -/
def replaceNull (c : Char) : Char :=
  if c = '\x00' then Reference.replacement else c

/-- A name in lower case, without null characters. -/
def nameOf (cs : List Char) : String :=
  String.ofList (cs.map fun c => (replaceNull c).toLower)

/-! ## Tags -/

/-- Whether a character belongs to a tag's name. -/
def isTagNameChar (c : Char) : Bool :=
  !Text.isHtmlSpace c && c ≠ '/' && c ≠ '>'

/-- Whether a character belongs to an attribute's name, behind its first. -/
def isAttributeNameChar (c : Char) : Bool :=
  isTagNameChar c && c ≠ '='

/-- Whether a character belongs to a value without quotes. -/
def isBareValueChar (c : Char) : Bool :=
  !Text.isHtmlSpace c && c ≠ '>'

/-- The value of an attribute, not decoded, and what follows it. The text
    starts behind the equals sign; nothing comes out if it ends too soon. -/
def readValue? (cs : List Char) : Option (List Char × List Char) :=
  match cs.dropWhile Text.isHtmlSpace with
  | [] => none
  | c :: cs =>
    if c = '"' ∨ c = '\'' then
      match cs.dropWhile (· ≠ c) with
      | [] => none
      | _ :: rest => some (cs.takeWhile (· ≠ c), rest)
    else some ((c :: cs).takeWhile isBareValueChar, (c :: cs).dropWhile isBareValueChar)

/-- An attribute and what follows it. The text starts with the attribute's
    name, whose first character is `c`. -/
def readAttribute? (c : Char) (cs : List Char) : Option ((String × String) × List Char) :=
  let name := nameOf (c :: cs.takeWhile isAttributeNameChar)
  match Text.strip? ['='] ((cs.dropWhile isAttributeNameChar).dropWhile Text.isHtmlSpace) with
  | some rest =>
    (readValue? rest).map fun (value, rest) =>
      ((name, String.ofList (Reference.decodeValue value)), rest)
  | none => some ((name, ""), cs.dropWhile isAttributeNameChar)

theorem suffix_of_readValue? {cs value rest : List Char}
    (h : readValue? cs = some (value, rest)) : rest <:+ cs := by
  have hd := List.dropWhile_suffix Text.isHtmlSpace (l := cs)
  unfold readValue? at h
  split at h
  · simp at h
  · rename_i c cs' heq
    rw [heq] at hd
    split at h
    · have hq := List.dropWhile_suffix (· ≠ c) (l := cs')
      split at h
      · simp at h
      · rename_i d r heq'
        rw [heq'] at hq
        simp only [Option.some.injEq, Prod.mk.injEq] at h
        rw [← h.2]
        exact (((List.suffix_cons d r).trans hq).trans (List.suffix_cons c cs')).trans hd
    · simp only [Option.some.injEq, Prod.mk.injEq] at h
      rw [← h.2]
      exact (List.dropWhile_suffix isBareValueChar).trans hd

theorem suffix_of_strip? {mark cs rest : List Char} (h : Text.strip? mark cs = some rest) :
    rest <:+ cs :=
  ⟨mark, (Text.strip?_eq_some_iff.1 h).symm⟩

theorem suffix_of_readAttribute? {c : Char} {cs rest : List Char} {a : String × String}
    (h : readAttribute? c cs = some (a, rest)) : rest <:+ cs := by
  have hn := List.dropWhile_suffix isAttributeNameChar (l := cs)
  have hs := List.dropWhile_suffix Text.isHtmlSpace (l := cs.dropWhile isAttributeNameChar)
  unfold readAttribute? at h
  dsimp only at h
  split at h
  · rename_i r heq
    obtain ⟨⟨v, r'⟩, hv, heq'⟩ := Option.map_eq_some_iff.1 h
    simp only [Prod.mk.injEq] at heq'
    rw [← heq'.2]
    exact (((suffix_of_readValue? hv).trans (suffix_of_strip? heq)).trans hs).trans hn
  · simp only [Option.some.injEq, Prod.mk.injEq] at h
    rw [← h.2]
    exact hn

/-- The attributes of a tag, whether it closes itself, and what follows it.
    Nothing comes out if the tag is not finished. `seen` are the attributes
    read before; of two with one name the first counts. -/
def readAttributes? (seen : List (String × String)) (cs : List Char) :
    Option (List (String × String) × Bool × List Char) :=
  match h : cs.dropWhile Text.isHtmlSpace with
  | [] => none
  | c :: rest =>
    have hlt : rest.length < cs.length := by
      have := (List.dropWhile_suffix Text.isHtmlSpace (l := cs)).length_le
      rw [h] at this
      exact this
    if c = '>' then some (seen, false, rest)
    else if c = '/' then
      if rest.head? = some '>' then some (seen, true, rest.drop 1)
      else readAttributes? seen rest
    else
      match ha : readAttribute? c rest with
      | none => none
      | some (a, after) =>
        have := (suffix_of_readAttribute? ha).length_le
        readAttributes? (if seen.any (·.1 == a.1) then seen else seen ++ [a]) after
termination_by cs.length

/-- A tag behind its opening mark: its token, and what follows it. A tag that
    is not finished gives no token and takes all text with it. -/
def readTag (make : TagToken → Token) (cs : List Char) : Piece :=
  match readAttributes? [] (cs.dropWhile isTagNameChar) with
  | some (attributes, selfClosing, rest) =>
    ⟨[make ⟨nameOf (cs.takeWhile isTagNameChar), attributes, selfClosing⟩], rest, false⟩
  | none => ⟨[], [], false⟩

/-- The token of an end tag. -/
def endTagOf (tag : TagToken) : Token :=
  .endTag tag.name

/-! ## Comments and other constructs -/

/-- A comment's token. -/
def commentOf (content : List Char) : Token :=
  .comment (String.ofList (content.map replaceNull))

/-- The content of a comment that is never closed: a closing mark that was
    begun does not belong to it. -/
def openComment (cs : List Char) : List Char :=
  match cs.reverse with
  | '!' :: '-' :: '-' :: rest => rest.reverse
  | '-' :: '-' :: rest => rest.reverse
  | '-' :: rest => rest.reverse
  | _ => cs

/-- The text behind one of two marks. -/
def stripEither? (mark other cs : List Char) : Option (List Char) :=
  (Text.strip? mark cs).or (Text.strip? other cs)

/-- The content of a comment and what follows it. Either of two marks closes
    it. -/
def breakComment? : List Char → Option (List Char × List Char)
  | [] => none
  | c :: cs =>
    match stripEither? ['-', '-', '>'] ['-', '-', '!', '>'] (c :: cs) with
    | some rest => some ([], rest)
    | none => (breakComment? cs).map fun (content, rest) => (c :: content, rest)

/-- A comment behind its opening mark. One that would end at once, though its
    closing mark lacks hyphens, does end. -/
def readComment (cs : List Char) : Piece :=
  match stripEither? ['>'] ['-', '>'] cs with
  | some rest => ⟨[commentOf []], rest, false⟩
  | none =>
    match breakComment? cs with
    | some (content, rest) => ⟨[commentOf content], rest, false⟩
    | none => ⟨[commentOf (openComment cs)], [], false⟩

/-- Text up to the next closing angle bracket, as a comment. -/
def readBogusComment (cs : List Char) : Piece :=
  ⟨[commentOf (cs.takeWhile (· ≠ '>'))], (cs.dropWhile (· ≠ '>')).drop 1, false⟩

/-- The tokens of a text in which null characters stay apart. -/
def textTokens (cs : List Char) : List Token :=
  match cs with
  | [] => []
  | c :: cs =>
    if c = '\x00' then .null :: textTokens cs
    else
      .text (c :: cs.takeWhile (· ≠ '\x00')) :: textTokens (cs.dropWhile (· ≠ '\x00'))
termination_by cs.length
decreasing_by
  · simp
  · have := (List.dropWhile_suffix (· ≠ '\x00') (l := cs)).length_le
    simp only [List.length_cons]
    omega

/-- A section whose text is no markup, behind its opening mark. -/
def readSection (cs : List Char) : Piece :=
  match Text.breakOn? [']', ']', '>'] cs with
  | some (content, rest) => ⟨textTokens content, rest, false⟩
  | none => ⟨textTokens cs, [], false⟩

/-- Whether a text starts with the word `doctype`, in any letter case. -/
def startsWithDoctype (cs : List Char) : Bool :=
  (cs.take 7).map Char.toLower == ['d', 'o', 'c', 't', 'y', 'p', 'e']

/-- What stands behind an opening angle bracket and an exclamation mark. A
    section is known only inside graphics and formulas, which `foreign` says. -/
def readDeclaration (foreign : Bool) (cs : List Char) : Piece :=
  match Text.strip? ['-', '-'] cs with
  | some rest => readComment rest
  | none =>
    if startsWithDoctype cs then ⟨[.doctype], (cs.dropWhile (· ≠ '>')).drop 1, false⟩
    else
      match Text.strip? ['[', 'C', 'D', 'A', 'T', 'A', '['] cs with
      | some rest => if foreign then readSection rest else readBogusComment cs
      | none => readBogusComment cs

/-- What stands behind an opening angle bracket and a slash. -/
def readEndTag (cs : List Char) : Piece :=
  match cs with
  | [] => ⟨[.text ['<', '/']], [], false⟩
  | c :: rest =>
    if c.isAlpha then readTag endTagOf cs
    else if c = '>' then ⟨[], rest, true⟩
    else readBogusComment cs

/-- What stands behind an opening angle bracket. -/
def readMarkup (foreign : Bool) (cs : List Char) : Piece :=
  match cs with
  | [] => ⟨[.text ['<']], [], false⟩
  | c :: rest =>
    if c = '!' then readDeclaration foreign rest
    else if c = '/' then readEndTag rest
    else if c.isAlpha then readTag .startTag cs
    else if c = '?' then readBogusComment cs
    else ⟨[.text ['<']], cs, false⟩

/-- What stands behind an ampersand. -/
def readReference (cs : List Char) : Piece :=
  match Reference.read? false cs with
  | some d => ⟨[.text d.characters], d.rest, !d.complete⟩
  | none => ⟨[.text ['&']], cs, false⟩

/-! ## Text with few or no tags -/

/-- Whether a text starts with the end tag of `name`, at least up to the
    character behind the name. -/
def startsWithEndTag (name : String) (cs : List Char) : Bool :=
  match Text.strip? ['<', '/'] cs with
  | some rest =>
    nameOf (rest.take name.length) == name &&
      match rest.drop name.length with
      | c :: _ => !isTagNameChar c
      | [] => false
  | none => false

/-- The characters before the first position at which `stops` holds, and the
    text from there on. -/
def breakAt (stops : List Char → Bool) : List Char → List Char × List Char
  | [] => ([], [])
  | c :: cs =>
    if stops (c :: cs) then ([], c :: cs)
    else
      let (run, rest) := breakAt stops cs
      (c :: run, rest)

/-- Where inside its comments a script is. -/
inductive ScriptState where
  /-- Outside a comment. -/
  | normal
  /-- Inside a comment, behind that many hyphens, counted up to two. -/
  | escaped (hyphens : Nat)
  /-- Inside a script of a comment. -/
  | doubleEscaped (hyphens : Nat)
  deriving DecidableEq, Repr

/-- Whether a text starts with the mark and the word `script`, at least up to
    the character behind the word. -/
def startsWithScript (mark cs : List Char) : Bool :=
  match Text.strip? mark cs with
  | some rest =>
    (rest.take 6).map Char.toLower == ['s', 'c', 'r', 'i', 'p', 't'] &&
      match rest.drop 6 with
      | c :: _ => !isTagNameChar c
      | [] => false
  | none => false

/-- Whether the end tag of a script ends it here. -/
def ScriptState.mayEnd : ScriptState → Bool
  | .doubleEscaped _ => false
  | _ => true

/-- The state behind the first character of a text. -/
def ScriptState.after (s : ScriptState) (cs : List Char) : ScriptState :=
  match s with
  | .normal =>
    -- The hyphens of the opening mark count for the closing one.
    if (Text.strip? ['<', '!', '-', '-'] cs).isSome then .escaped 0 else .normal
  | .escaped hyphens =>
    match cs with
    | [] => .escaped hyphens
    | c :: _ =>
      if c = '-' then .escaped (min 2 (hyphens + 1))
      else if c = '>' ∧ hyphens = 2 then .normal
      else if startsWithScript ['<'] cs then .doubleEscaped 0
      else .escaped 0
  | .doubleEscaped hyphens =>
    match cs with
    | [] => .doubleEscaped hyphens
    | c :: _ =>
      if c = '-' then .doubleEscaped (min 2 (hyphens + 1))
      else if c = '>' ∧ hyphens = 2 then .normal
      else if startsWithScript ['<', '/'] cs then .escaped 0
      else .doubleEscaped 0

/-- The text of a script up to its end tag, and the text from there on. -/
def breakScript : ScriptState → List Char → List Char × List Char
  | _, [] => ([], [])
  | s, c :: cs =>
    if s.mayEnd && startsWithEndTag "script" (c :: cs) then ([], c :: cs)
    else
      let (run, rest) := breakScript (s.after (c :: cs)) cs
      (c :: run, rest)

/-! ## The first piece -/

/-- Whether a character is plain text wherever markup counts. -/
def isRunChar (c : Char) : Bool :=
  c ≠ '<' && c ≠ '&' && c ≠ '\x00'

/-- The first piece of a text where everything counts as markup. -/
def nextData (foreign : Bool) (c : Char) (cs : List Char) : Piece :=
  if c = '<' then readMarkup foreign cs
  else if c = '&' then readReference cs
  else if c = '\x00' then ⟨[.null], cs, false⟩
  else ⟨[.text (c :: cs.takeWhile isRunChar)], cs.dropWhile isRunChar, false⟩

/-- The first piece of a text without tags, which has been broken where
    something else starts: the text before, or else what starts there. -/
def nextBroken (broken : List Char × List Char) : Piece :=
  match broken with
  | (c :: run, rest) => ⟨[.text ((c :: run).map replaceNull)], rest, false⟩
  | ([], rest) =>
    if rest.head? = some '&' then readReference (rest.drop 1)
    else readTag endTagOf (rest.drop 2)

/-- A piece without the byte order mark that follows an end tag in it. -/
def Piece.restarted (p : Piece) : Piece :=
  match p.tokens with
  | [.endTag _] => { p with rest := Text.dropMark p.rest }
  | _ => p

/-- The first piece of the text `c :: cs`. Behind a script reading starts anew,
    and as at the start of a text, a byte order mark there does not count. -/
def next (reading : Reading) (foreign : Bool) (c : Char) (cs : List Char) : Piece :=
  match reading with
  | .data => nextData foreign c cs
  | .escapable name =>
    nextBroken (breakAt (fun cs => cs.head? = some '&' || startsWithEndTag name cs) (c :: cs))
  | .raw name => nextBroken (breakAt (startsWithEndTag name) (c :: cs))
  | .script => (nextBroken (breakScript .normal (c :: cs))).restarted
  | .plain => ⟨[.text ((c :: cs).map replaceNull)], [], false⟩

/-! ## Using up text -/

theorem suffix_of_readAttributes? {seen attributes : List (String × String)}
    {cs rest : List Char} {selfClosing : Bool}
    (h : readAttributes? seen cs = some (attributes, selfClosing, rest)) : rest <:+ cs := by
  have hspace (cs : List Char) {c : Char} {after : List Char}
      (heq : cs.dropWhile Text.isHtmlSpace = c :: after) : after <:+ cs :=
    (List.suffix_cons c after).trans (heq ▸ List.dropWhile_suffix Text.isHtmlSpace)
  fun_induction readAttributes? seen cs with
  | case1 => simp at h
  | case2 seen cs d hd hlt =>
      simp only [Option.some.injEq, Prod.mk.injEq] at h
      rw [← h.2.2]
      exact hspace cs hd
  | case3 seen cs after hclose hd hlt =>
      simp only [Option.some.injEq, Prod.mk.injEq] at h
      rw [← h.2.2]
      exact (List.drop_suffix _ _).trans (hspace cs hd)
  | case4 seen cs after hopen hd hlt hh ih => exact (ih h).trans (hspace cs hd)
  | case5 => simp at h
  | case6 seen cs c after hd hlt hc hh a after' ha hle ih =>
      exact ((ih h).trans (suffix_of_readAttribute? ha)).trans (hspace cs hd)

theorem readTag_suffix (make : TagToken → Token) (cs : List Char) :
    (readTag make cs).rest <:+ cs := by
  unfold readTag
  split
  · rename_i h
    exact (suffix_of_readAttributes? h).trans (List.dropWhile_suffix isTagNameChar)
  · exact List.nil_suffix

theorem suffix_of_stripEither? {mark other cs rest : List Char}
    (h : stripEither? mark other cs = some rest) : rest <:+ cs := by
  unfold stripEither? at h
  rcases Option.or_eq_some_iff.1 h with h | ⟨_, h⟩ <;> exact suffix_of_strip? h

theorem suffix_of_breakComment? {cs content rest : List Char}
    (h : breakComment? cs = some (content, rest)) : rest <:+ cs := by
  induction cs generalizing content with
  | nil => simp [breakComment?] at h
  | cons c cs ih =>
      unfold breakComment? at h
      split at h
      · rename_i heq
        simp only [Option.some.injEq, Prod.mk.injEq] at h
        rw [← h.2]
        exact suffix_of_stripEither? heq
      · obtain ⟨⟨a, b⟩, hab, heq⟩ := Option.map_eq_some_iff.1 h
        simp only [Prod.mk.injEq] at heq
        rw [heq.2] at hab
        exact (ih hab).trans (List.suffix_cons c cs)

theorem readComment_suffix (cs : List Char) : (readComment cs).rest <:+ cs := by
  unfold readComment
  split
  · rename_i heq
    exact suffix_of_stripEither? heq
  · split
    · rename_i heq
      exact suffix_of_breakComment? heq
    · exact List.nil_suffix

theorem drop_dropWhile_suffix (p : Char → Bool) (n : Nat) (cs : List Char) :
    (cs.dropWhile p).drop n <:+ cs :=
  (List.drop_suffix _ _).trans (List.dropWhile_suffix p)

theorem readSection_suffix (cs : List Char) : (readSection cs).rest <:+ cs := by
  unfold readSection
  split
  · rename_i heq
    exact ⟨_, (Text.eq_of_breakOn? heq).symm⟩
  · exact List.nil_suffix

theorem readDeclaration_suffix (foreign : Bool) (cs : List Char) :
    (readDeclaration foreign cs).rest <:+ cs := by
  unfold readDeclaration
  split
  · rename_i heq
    exact (readComment_suffix _).trans (suffix_of_strip? heq)
  · split
    · exact drop_dropWhile_suffix _ _ _
    · split
      · rename_i heq
        split
        · exact (readSection_suffix _).trans (suffix_of_strip? heq)
        · exact drop_dropWhile_suffix _ _ _
      · exact drop_dropWhile_suffix _ _ _

theorem readEndTag_suffix (cs : List Char) : (readEndTag cs).rest <:+ cs := by
  unfold readEndTag
  split
  · exact List.suffix_refl _
  · split
    · exact readTag_suffix _ _
    · split
      · exact List.suffix_cons _ _
      · exact drop_dropWhile_suffix _ _ _

theorem readMarkup_suffix (foreign : Bool) (cs : List Char) :
    (readMarkup foreign cs).rest <:+ cs := by
  unfold readMarkup
  split
  · exact List.suffix_refl _
  · rename_i c rest
    split
    · exact (readDeclaration_suffix _ _).trans (List.suffix_cons _ _)
    · split
      · exact (readEndTag_suffix _).trans (List.suffix_cons _ _)
      · split
        · exact readTag_suffix _ _
        · split
          · exact drop_dropWhile_suffix _ _ _
          · exact List.suffix_refl _

theorem readReference_suffix (cs : List Char) : (readReference cs).rest <:+ cs := by
  unfold readReference
  split
  · rename_i heq
    exact Reference.suffix_of_read? heq
  · exact List.suffix_refl _

theorem nextData_suffix (foreign : Bool) (c : Char) (cs : List Char) :
    (nextData foreign c cs).rest <:+ cs := by
  unfold nextData
  split
  · exact readMarkup_suffix _ _
  · split
    · exact readReference_suffix _
    · split
      · exact List.suffix_refl _
      · exact List.dropWhile_suffix _

theorem append_breakAt (stops : List Char → Bool) (cs : List Char) :
    (breakAt stops cs).1 ++ (breakAt stops cs).2 = cs := by
  induction cs with
  | nil => rfl
  | cons c cs ih =>
      unfold breakAt
      split
      · rfl
      · simp only [List.cons_append, ih]

theorem append_breakScript (s : ScriptState) (cs : List Char) :
    (breakScript s cs).1 ++ (breakScript s cs).2 = cs := by
  induction cs generalizing s with
  | nil => cases s <;> rfl
  | cons c cs ih =>
      rw [breakScript]
      split
      · rfl
      · simp only [List.cons_append, ih]

theorem nextBroken_suffix {broken : List Char × List Char} {c : Char} {cs : List Char}
    (h : broken.1 ++ broken.2 = c :: cs) : (nextBroken broken).rest <:+ cs := by
  obtain ⟨run, rest⟩ := broken
  cases run with
  | nil =>
      have h : rest = c :: cs := h
      subst h
      simp only [nextBroken]
      split
      · exact readReference_suffix _
      · exact (readTag_suffix _ _).trans (List.drop_suffix 1 cs)
  | cons d run =>
      have h : d :: (run ++ rest) = c :: cs := h
      exact ⟨run, (List.cons.inj h).2⟩

theorem restarted_suffix (p : Piece) : p.restarted.rest <:+ p.rest := by
  unfold Piece.restarted
  split
  · exact Text.dropMark_suffix _
  · exact List.suffix_refl _

/-- Each piece takes at least one character from the start of the text. -/
theorem next_suffix (reading : Reading) (foreign : Bool) (c : Char) (cs : List Char) :
    (next reading foreign c cs).rest <:+ cs := by
  cases reading with
  | data => exact nextData_suffix _ _ _
  | escapable name => exact nextBroken_suffix (append_breakAt _ _)
  | raw name => exact nextBroken_suffix (append_breakAt _ _)
  | script => exact (restarted_suffix _).trans (nextBroken_suffix (append_breakScript _ _))
  | plain => exact List.nil_suffix

end Html

end SoleRoot

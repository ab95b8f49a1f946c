import SoleRoot.Proofs.Html.Descent

/-!
# The Start Tags of a Text

Where the start tags stand that a text is cut into, and what their attributes are.

A text is cut piece by piece, and how the next piece is cut depends on what the pieces
before it have done. `tokensFrom` are all tokens that a text is cut into in this way.
Only one rule makes start tags, the one for a bracket with a letter behind it where
everything counts as markup, and it makes one at a time. So the start tags stand in the
text as they were read, one behind the other, each behind a bracket. No two attributes of
a tag have one name, and the names are in lower case.

Since elements can be traced to start tags, all elements of the tree that grows from a
text can be traced to places where a start tag stands.

## Main definitions

* `tokensFrom`: The tokens that a text is cut into.
* `StandInOrder`: Start tags stand in a text, one behind the other.

## Theorems

* `startTag_of_next`: What a start tag is read from.
* `standInOrder_startTags`: The start tags among the tokens stand in the text.
* `Builder.Stems.grow`: All elements can be traced to start tags among the tokens.
-/

namespace SoleRoot

namespace Html

/-- Whether start tags stand in a text in their order, each behind a bracket and behind
    the end of the tag before it. -/
inductive StandInOrder : List TagToken → List Char → Prop where
  | nil (text : List Char) : StandInOrder [] text
  | cons {tag : TagToken} {tags : List TagToken} {c : Char} {cs text : List Char}
    (hsuffix : '<' :: c :: cs <:+ text) (hletter : c.isAlpha = true)
    (hread : (readTag .startTag (c :: cs)).tokens = [.startTag tag])
    (hrest : StandInOrder tags (readTag .startTag (c :: cs)).rest) :
    StandInOrder (tag :: tags) text

/-- The tokens that a text is cut into by a reader in a state. -/
def tokensFrom (b : Builder) (cs : List Char) : List Token :=
  match cs with
  | [] => []
  | c :: cs =>
    let p := next b.reading b.currentIsForeign c cs
    have := (next_suffix b.reading b.currentIsForeign c cs).length_le
    p.tokens ++ tokensFrom (b.take p) p.rest
termination_by cs.length

theorem StandInOrder.mono {tags : List TagToken} {text longer : List Char}
    (h : StandInOrder tags text) (hle : text <:+ longer) : StandInOrder tags longer := by
  cases h with
  | nil => exact .nil longer
  | cons hsuffix hletter hread hrest => exact .cons (hsuffix.trans hle) hletter hread hrest

section Tagless

/-- Whether no token of a piece is a start tag. -/
def Piece.Tagless (p : Piece) : Prop :=
  ∀ tag, .startTag tag ∉ p.tokens

theorem tagless_commentOf (content rest : List Char) (faulty : Bool) :
    Piece.Tagless ⟨[commentOf content], rest, faulty⟩ := by
  intro tag hmem
  simp [commentOf] at hmem

/-- A comment is not a start tag, whatever ends it. -/
theorem tagless_readComment (cs : List Char) : (readComment cs).Tagless := by
  unfold readComment
  split
  · exact tagless_commentOf _ _ _
  split
  · exact tagless_commentOf _ _ _
  · exact tagless_commentOf _ _ _

/-- Nor is the text of a section. -/
theorem not_mem_textTokens (tag : TagToken) (cs : List Char) : .startTag tag ∉ textTokens cs := by
  fun_induction textTokens cs with
  | case1 => exact List.not_mem_nil
  | case2 cs ih => simp [ih]
  | case3 c cs hc ih =>
      rw [List.mem_cons, not_or]
      exact ⟨Token.noConfusion, ih⟩

/-- Nothing that starts with an exclamation mark is a start tag. -/
theorem tagless_readDeclaration (foreign : Bool) (cs : List Char) :
    (readDeclaration foreign cs).Tagless := by
  unfold readDeclaration
  split
  · exact tagless_readComment _
  split
  · intro tag hmem
    simp at hmem
  split
  · split
    -- Only foreign content has sections, and what is inside them is text.
    · unfold readSection
      split
      · exact fun tag => not_mem_textTokens tag _
      · exact fun tag => not_mem_textTokens tag _
    · exact tagless_commentOf _ _ _
  · exact tagless_commentOf _ _ _

/-- What is read as an end tag is not a start tag. -/
theorem tagless_readTag_endTagOf (cs : List Char) : (readTag endTagOf cs).Tagless := by
  intro tag hmem
  unfold readTag at hmem
  split at hmem
  · simp [endTagOf] at hmem
  · simp at hmem

/-- Nor is anything that starts with a slash. -/
theorem tagless_readEndTag (cs : List Char) : (readEndTag cs).Tagless := by
  unfold readEndTag
  split
  · intro tag hmem
    simp at hmem
  split
  · exact tagless_readTag_endTagOf _
  split
  · intro tag hmem
    simp at hmem
  · exact tagless_commentOf _ _ _

/-- A reference is text. -/
theorem tagless_readReference (cs : List Char) : (readReference cs).Tagless := by
  intro tag hmem
  unfold readReference at hmem
  split at hmem
  · simp at hmem
  · simp at hmem

/-- So is what stands in an element that holds text only, up to the end tag. -/
theorem tagless_nextBroken (broken : List Char × List Char) : (nextBroken broken).Tagless := by
  unfold nextBroken
  split
  · intro tag hmem
    simp at hmem
  split
  · exact tagless_readReference _
  · exact tagless_readTag_endTagOf _

theorem tokens_restarted (p : Piece) : p.restarted.tokens = p.tokens := by
  unfold Piece.restarted
  split
  · rfl
  · rfl

end Tagless

section Tags

variable {tag : TagToken}

/-- A start tag is read behind a bracket, from a letter on. -/
theorem startTag_of_readMarkup {foreign : Bool} {cs : List Char}
    (h : .startTag tag ∈ (readMarkup foreign cs).tokens) :
    ∃ c ds, cs = c :: ds ∧ c.isAlpha = true ∧
      readMarkup foreign cs = readTag .startTag cs := by
  unfold readMarkup at h ⊢
  split at h
  · simp at h
  rename_i c ds
  split at h
  -- All branches but one make other tokens.
  · exact absurd h (tagless_readDeclaration _ _ tag)
  split at h
  · exact absurd h (tagless_readEndTag _ tag)
  rename_i hdeclaration hend
  split at h
  · -- Behind a letter: the only branch that makes a start tag.
    rename_i hc
    exact ⟨c, ds, rfl, hc, by simp only [if_neg hdeclaration, if_neg hend, if_pos hc]⟩
  split at h
  · exact absurd h (tagless_commentOf _ _ _ tag)
  · simp at h

/-- What a start tag is read from. -/
theorem startTag_of_next {reading : Reading} {foreign : Bool} {c : Char} {cs : List Char}
    (h : .startTag tag ∈ (next reading foreign c cs).tokens) :
    ∃ d ds, c :: cs = '<' :: d :: ds ∧ d.isAlpha = true ∧
      next reading foreign c cs = readTag .startTag (d :: ds) := by
  unfold next at h ⊢
  split at h
  · unfold nextData at h ⊢
    split at h
    · rename_i hc
      rcases startTag_of_readMarkup h with ⟨d, ds, rfl, hd, hread⟩
      exact ⟨d, ds, by rw [hc], hd, by rw [if_pos hc, hread]⟩
    split at h
    · exact absurd h (tagless_readReference _ tag)
    split at h
    · simp at h
    · simp at h
  -- Inside an element that holds text only there are no start tags.
  · exact absurd h (tagless_nextBroken _ tag)
  · exact absurd h (tagless_nextBroken _ tag)
  · rw [tokens_restarted] at h
    exact absurd h (tagless_nextBroken _ tag)
  · simp at h

/-- A tag is read at once. -/
theorem tokens_of_startTag_mem {cs : List Char}
    (h : .startTag tag ∈ (readTag .startTag cs).tokens) :
    (readTag .startTag cs).tokens = [.startTag tag] := by
  unfold readTag at h ⊢
  split at h
  · rw [List.mem_singleton.1 h]
  · simp at h

/-- The start tags of two lists of tokens stand behind each other. -/
theorem startTags_append (ts us : List Token) :
    startTags (ts ++ us) = startTags ts ++ startTags us :=
  List.filterMap_append

/-- A piece without start tags adds none. -/
theorem startTags_eq_nil {p : Piece} (h : p.Tagless) : startTags p.tokens = [] := by
  refine List.filterMap_eq_nil_iff.2 fun t ht => ?_
  cases t with
  | startTag tag => exact absurd ht (h tag)
  | _ => rfl

/-- The start tags among the tokens of a text stand in the text. -/
theorem standInOrder_startTags (b : Builder) (cs : List Char) :
    StandInOrder (startTags (tokensFrom b cs)) cs := by
  fun_induction tokensFrom b cs with
  | case1 => exact .nil []
  | case2 b c cs p hle ih =>
      rw [startTags_append]
      -- A piece is a start tag or has none in it.
      by_cases htag : ∃ tag, .startTag tag ∈ p.tokens
      · rcases htag with ⟨tag, htag⟩
        rcases startTag_of_next htag with ⟨d, ds, hcs, hd, hnext⟩
        have hp : p = readTag .startTag (d :: ds) := hnext
        rw [hp] at htag ih ⊢
        have htokens := tokens_of_startTag_mem htag
        rw [htokens]
        exact .cons (hcs ▸ List.suffix_refl _) hd htokens ih
      · rw [startTags_eq_nil fun tag hmem => htag ⟨tag, hmem⟩]
        exact ih.mono ((next_suffix _ _ c cs).trans (List.suffix_cons c cs))

/-- All elements of the tree that grows from a text can be traced to start tags among
    the tokens. -/
theorem Builder.Stems.grow {tags : List TagToken} {b : Builder} (h : b.Stems tags)
    (cs : List Char) : (grow b cs).Stems (tags ++ startTags (tokensFrom b cs)) := by
  fun_induction tokensFrom b cs generalizing tags with
  | case1 b =>
      rw [Html.grow, startTags, List.filterMap_nil, List.append_nil]
      exact h.finish
  | case2 b c cs p hle =>
      rename_i ih
      rw [Html.grow, startTags_append, ← List.append_assoc]
      exact ih (h.take p)

end Tags

section Names

/-- Whether attributes have names in lower case, and no two of them one name. -/
structure Named (attributes : List (String × String)) : Prop where
  distinct : (attributes.map Prod.fst).Nodup
  lowered : ∀ a ∈ attributes, a.1.toLower = a.1

/-- Letters are made small once. -/
theorem toLower_toLower (c : Char) : c.toLower.toLower = c.toLower := by
  by_cases hupper : c.val ≥ 'A'.val ∧ c.val ≤ 'Z'.val
  · -- Few characters are that small, so all of them are tried.
    have hall : ∀ n < 91, (Char.ofNat n).toLower.toLower = (Char.ofNat n).toLower := by
      decide +kernel
    have hc := hall c.toNat (Nat.lt_succ_of_le (UInt32.le_iff_toNat_le.1 hupper.2))
    rwa [Char.ofNat_toNat] at hc
  · have hsame : c.toLower = c := by
      unfold Char.toLower
      exact dif_neg hupper
    rw [hsame, hsame]

/-- A name is read in small letters. -/
theorem toLower_nameOf (cs : List Char) : (nameOf cs).toLower = nameOf cs := by
  change (nameOf cs).map Char.toLower = nameOf cs
  rw [nameOf, ← String.toList_inj, String.toList_map, String.toList_ofList,
    List.map_map]
  exact List.map_congr_left fun c _ => toLower_toLower _

/-- So is the name of an attribute. -/
theorem name_of_readAttribute? {c : Char} {cs rest : List Char} {a : String × String}
    (h : readAttribute? c cs = some (a, rest)) : a.1.toLower = a.1 := by
  unfold readAttribute? at h
  dsimp only at h
  split at h
  · rcases Option.map_eq_some_iff.1 h with ⟨_, _, heq⟩
    rw [← (Prod.mk.inj heq).1]
    exact toLower_nameOf _
  · rw [← (Prod.mk.inj (Option.some.inj h)).1]
    exact toLower_nameOf _

/-- Of two attributes with one name the second is left out. -/
theorem Named.snoc {seen : List (String × String)} (h : Named seen) {a : String × String}
    (ha : a.1.toLower = a.1) : Named (if seen.any (·.1 == a.1) then seen else seen ++ [a]) := by
  split
  · exact h
  · rename_i hnew
    -- The attribute is added only if no other has its name.
    have hfresh : a.1 ∉ seen.map Prod.fst := by
      intro hmem
      rcases List.mem_map.1 hmem with ⟨a', ha', heq⟩
      exact hnew (List.any_eq_true.2 ⟨a', ha', beq_iff_eq.2 heq⟩)
    constructor
    · rw [List.map_append, List.map_singleton]
      refine List.nodup_append.2 ⟨h.distinct, by simp, ?_⟩
      intro name hname name' hname' heq
      rw [List.mem_singleton.1 hname'] at heq
      exact hfresh (heq ▸ hname)
    · intro a' ha'
      rcases List.mem_append.1 ha' with ha' | ha'
      · exact h.lowered a' ha'
      · rw [List.mem_singleton.1 ha']
        exact ha

theorem named_nil : Named [] :=
  ⟨by simp, by simp⟩

/-- The attributes of a tag keep to this while they are read one by one. -/
theorem named_of_readAttributes? {seen attributes : List (String × String)}
    {cs rest : List Char} {selfClosing : Bool} (hseen : Named seen)
    (h : readAttributes? seen cs = some (attributes, selfClosing, rest)) : Named attributes := by
  fun_induction readAttributes? seen cs with
  | case1 => simp at h
  | case2 => exact (Prod.mk.inj (Option.some.inj h)).1 ▸ hseen
  | case3 => exact (Prod.mk.inj (Option.some.inj h)).1 ▸ hseen
  | case4 seen cs after hopen hd hlt hh ih => exact ih hseen h
  | case5 => simp at h
  | case6 seen cs c after hlt hd hc hh a after' ha hle ih =>
      -- One attribute more: it is new, or it is left out.
      exact ih (hseen.snoc (name_of_readAttribute? ha)) h

/-- The names of a start tag's attributes. -/
theorem named_of_readTag {tag : TagToken} {cs : List Char}
    (h : (readTag .startTag cs).tokens = [.startTag tag]) : Named tag.attributes := by
  unfold readTag at h
  split at h
  · rename_i attributes selfClosing rest hattributes
    rcases Token.startTag.inj (List.singleton_inj.1 h) with rfl
    exact named_of_readAttributes? named_nil hattributes
  · simp at h

/-- All start tags of a text keep to this. -/
theorem StandInOrder.named {tags : List TagToken} {text : List Char}
    (h : StandInOrder tags text) : ∀ tag ∈ tags, Named tag.attributes := by
  induction h with
  | nil => simp
  | cons _ _ hread _ ih => exact List.forall_mem_cons.2 ⟨named_of_readTag hread, ih⟩

end Names

end Html

end SoleRoot

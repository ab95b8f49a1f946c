import SoleRoot.Html.Reader
import SoleRoot.Proofs.Html.Origin

/-!
# No Rule Makes Up Attributes

Reading a text keeps it true that all elements can be traced to start tags of the text,
each to one of its own.

There is one lemma for each function of the rules. Each follows the branches of the
function; what a branch is made of is known to keep the state so. The list of start tags
grows by the tag at hand, whether the tag opens an element or is ignored. A rule that
hands a token back has not used it, and then the list stays as it is until the token is
looked at again.

## Main definitions

* `startTags`: The start tags among tokens.
* `Token.addTo`: The start tags read so far, with a token.
* `Outcome.Stems`: What a rule leaves behind, with the token that it hands back.

## Theorems

* `Builder.Stems.acceptInBody`: The rules of the body.
* `Builder.Stems.inMode`: The rules of any mode.
* `Builder.Stems.accept`: All that is done with a token.
-/

namespace SoleRoot

namespace Html

/-- The tag of a start tag. -/
def Token.tag? : Token → Option TagToken
  | .startTag tag => some tag
  | _ => none

/-- The start tags among tokens, in their order. -/
def startTags (ts : List Token) : List TagToken :=
  ts.filterMap Token.tag?

/-- The start tags read so far, with those of one token more. -/
def Token.addTo (tags : List TagToken) : Token → List TagToken
  | .startTag tag => tags ++ [tag]
  | _ => tags

/-- Whether all elements that a rule leaves can be traced to the tags read so far. A token
    that is handed back has not been used. -/
def Outcome.Stems (tags : List TagToken) (t : Token) : Outcome → Prop
  | .done b => b.Stems (t.addTo tags)
  | .again t' b => t'.addTo tags = t.addTo tags ∧ b.Stems tags

/-- A token takes no start tag away from those read so far. -/
theorem Token.le_addTo (t : Token) (tags : List TagToken) : tags <+: t.addTo tags := by
  cases t with
  | startTag tag => exact List.prefix_append tags [tag]
  | _ => exact List.prefix_refl tags

/-- A token adds its tag in front of those of the tokens behind it. -/
theorem Token.addTo_append (t : Token) (tags : List TagToken) (ts : List Token) :
    t.addTo tags ++ startTags ts = tags ++ startTags (t :: ts) := by
  cases t with
  | startTag tag => exact List.append_assoc tags [tag] (startTags ts)
  | _ => rfl

/-- A text stays a text without its first line feed. -/
theorem Token.addTo_of_withoutLineFeed {t t' : Token} (h : Builder.withoutLineFeed t = some t')
    (tags : List TagToken) : t'.addTo tags = t.addTo tags := by
  unfold Builder.withoutLineFeed at h
  -- Only a text changes at all, and it has no tag before or after.
  split at h
  · split at h
    · rw [← Option.some.inj h]
    split at h
    · exact absurd h (by simp)
    · rw [← Option.some.inj h]
      rfl
  · rw [← Option.some.inj h]

namespace Builder.Stems

variable {tags : List TagToken} {b : Builder} {tag : TagToken}

/-- A token may have no effect. -/
theorem ignore (h : b.Stems tags) (t : Token) : b.Stems (t.addTo tags) :=
  h.mono (t.le_addTo tags)

section Metadata

/-- A template is opened behind a mark. -/
theorem startTemplate (h : b.Stems tags) :
    (b.startTemplate tag).Stems (tags ++ [tag]) :=
  Stems.openElement (h.markFormatting.congr rfl rfl rfl rfl)

/-- Elements that may also stand in a head: they hold nothing, a text, or are templates. -/
theorem startMetadata (h : b.Stems tags) :
    (b.startMetadata tag).Stems (tags ++ [tag]) := by
  unfold Builder.startMetadata
  split
  · exact h.insertVoid
  split
  · exact h.openText _
  split
  · exact h.openText _
  split
  · exact h.startTemplate
  · exact h.openText _

/-- The end tag of a template closes it and forgets what was marked inside. -/
theorem endTemplate (h : b.Stems tags) : b.endTemplate.Stems tags := by
  unfold Builder.endTemplate
  split
  · exact ((h.impliedEnds _).closeNamed "template").clearFormatting.congr rfl rfl rfl rfl
  · exact h

end Metadata

section Body

/-- A list item may end another one first. -/
theorem startItem (h : b.Stems tags) (names : List String) :
    (b.startItem names tag).Stems (tags ++ [tag]) := by
  refine Stems.openElement (Stems.endParagraph ?_)
  split
  · exact (h.impliedEndsExcept _).closeNamed _
  · exact h

/-- A form is opened unless there is one already; then its tag is not used. -/
theorem startForm (h : b.Stems tags) :
    (b.startForm tag).Stems (tags ++ [tag]) := by
  have hopen : (b.endParagraph.openElement tag).Stems (tags ++ [tag]) := h.endParagraph.openElement
  unfold Builder.startForm
  split
  -- The tag is ignored, but it has been read.
  · exact h.skip
  dsimp only
  split
  · exact hopen
  · exact hopen.congr rfl rfl rfl rfl

theorem startSelect (h : b.Stems tags) :
    (b.startSelect tag).Stems (tags ++ [tag]) :=
  h.reopenFormatting.openElement.congr rfl rfl rfl rfl

/-- An element of graphics or a formula is not opened if its tag closes itself. -/
theorem startForeign (h : b.Stems tags) {space : Namespace} {name : String}
    (hname : tag.Names ⟨space, name⟩) :
    (b.startForeign space name tag).Stems (tags ++ [tag]) := by
  unfold Builder.startForeign
  dsimp only
  split
  · exact h.insertElement hname
  · exact h.openNamed hname

/-- Elements that hold text only. -/
theorem startText (h : b.Stems tags) :
    (b.startText tag).Stems (tags ++ [tag]) := by
  unfold Builder.startText
  split
  · exact (h.openText (.escapable "textarea")).congr rfl rfl rfl rfl
  · exact h.endParagraph.reopenFormatting.openText _
  · exact h.endParagraph.openElement.congr rfl rfl rfl rfl
  · exact h.openText _

/-- A button ends the one it would stand in. -/
theorem startButton (h : b.Stems tags) :
    (if b.hasInScope .general "button" then
      (b.impliedEnds Name.impliedEnds).closeNamed "button" else b).Stems tags := by
  split
  · exact (h.impliedEnds _).closeNamed _
  · exact h

/-- The start tags of a body that have a rule of their own, and all phrases. -/
theorem startOther (h : b.Stems tags) :
    (b.startOther tag).Stems (tags ++ [tag]) := by
  have hphrase : (b.reopenFormatting.openElement tag).Stems (tags ++ [tag]) :=
    h.reopenFormatting.openElement
  unfold Builder.startOther
  split
  case h_1 | h_2 => exact h.endParagraph.openElement.congr rfl rfl rfl rfl
  case h_3 => exact h.startForm
  case h_4 => exact h.startItem _
  case h_5 | h_6 => exact h.startItem _
  case h_7 | h_8 | h_9 | h_10 | h_11 | h_12 => exact h.startText
  case h_13 => exact h.startButton.reopenFormatting.openElement
  case h_14 hname =>
    -- A link ends the one before it, wherever that is open.
    exact h.endLink.reopenFormatting.openFormatting (hname ▸ by simp [formattingNames])
  case h_15 hname =>
    refine Stems.openFormatting ?_ (hname ▸ by simp [formattingNames])
    split
    · exact (h.reopenFormatting.adopt _).reopenFormatting
    · exact h.reopenFormatting
  case h_16 => exact h.endParagraph.openElement.congr rfl rfl rfl rfl
  case h_17 => exact h.endParagraph.insertVoid
  -- An image is the one element of HTML that does not have the name of its tag.
  case h_18 hname =>
    exact h.reopenFormatting.insertElement (n := .html "img") (.inr (.inr ⟨rfl, hname⟩))
  case h_19 => exact h.startSelect
  case h_20 | h_21 =>
    refine Stems.openElement (Stems.reopenFormatting ?_)
    split
    · exact h.pop
    · exact h
  case h_22 | h_23 =>
    refine Stems.openElement ?_
    split
    · exact h.impliedEnds _
    · exact h
  case h_24 | h_25 =>
    refine Stems.openElement ?_
    split
    · exact h.impliedEndsExcept _
    · exact h
  case h_26 => exact h.startForeign (.inl rfl)
  case h_27 => exact h.startForeign (.inl rfl)
  case h_28 => exact hphrase

/-- All start tags in a body. Most of them are sorted by what their elements do to paragraphs and
formatting elements. -/
theorem startInBody (h : b.Stems tags) :
    (b.startInBody tag).Stems (tags ++ [tag]) := by
  unfold Builder.startInBody
  split
  · exact h.endParagraph.openElement
  split
  · rename_i hphrase
    exact h.reopenFormatting.openFormatting
      (List.mem_append_left _ (List.contains_iff_mem.1 hphrase))
  split
  · exact h.skip
  split
  · exact h.startMetadata
  split
  · refine Stems.openElement ?_
    split
    · exact h.endParagraph.pop
    · exact h.endParagraph
  split
  · exact h.reopenFormatting.openElement.markFormatting
  split
  · exact h.reopenFormatting.insertVoid
  split
  · exact h.insertVoid
  · exact h.startOther

/-- The end tag of a form closes it even if it is not the innermost element. -/
theorem endForm (h : b.Stems tags) : b.endForm.Stems tags := by
  have hclosed : { b with form := none }.Stems tags := h.congr rfl rfl rfl rfl
  unfold Builder.endForm
  split
  · split
    · exact (h.impliedEnds _).closeNamed _
    · exact h
  split
  · exact h
  dsimp only
  split
  · exact (hclosed.impliedEnds _).dropOpened _
  · exact hclosed

/-- All end tags in a body. -/
theorem endInBody (h : b.Stems tags) (name : String) : (b.endInBody name).Stems tags := by
  unfold Builder.endInBody
  split
  · split
    · exact (h.impliedEnds _).closeNamed _
    · exact h
  split
  · exact h.adopt _
  split
  · split
    · exact (h.impliedEnds _).closeThrough _
    · exact h
  split
  · split
    · exact ((h.impliedEnds _).closeNamed _).clearFormatting
    · exact h
  split
  case h_1 | h_2 => exact h
  case h_3 => exact h.endTemplate
  case h_4 => exact h.endForm
  case h_5 =>
    refine Stems.closeParagraph ?_
    split
    · exact h
    -- A paragraph that is ended and was not open is opened first, without attributes.
    · exact h.openImplied (by simp [impliedNames])
  case h_6 | h_7 | h_8 =>
    split
    · exact (h.impliedEndsExcept _).closeNamed _
    · exact h
  case h_9 | h_10 => exact h.adopt _
  -- The end tag of a line break is read as a start tag, but not as one of the text.
  case h_11 => exact h.reopenFormatting.insertImplied (by simp [impliedNames])
  case h_12 => exact h.closeOther _

/-- The rules of the body. -/
theorem acceptInBody (h : b.Stems tags) (t : Token) : (b.acceptInBody t).Stems (t.addTo tags) := by
  cases t with
  | text content => exact h.reopenFormatting.insertText content
  | comment content => exact h.insertComment content
  | startTag tag => exact h.startInBody
  | endTag name => exact h.endInBody name
  | null => exact h
  | doctype => exact h

/-- What is moved out of a table is read by the rules of the body. -/
theorem foster (h : b.Stems tags) (t : Token) : (b.foster t).Stems (t.addTo tags) := by
  have hfostering : { b with fostering := true }.Stems tags := h.congr rfl rfl rfl rfl
  exact (hfostering.acceptInBody t).congr rfl rfl rfl rfl

end Body

section Template

/-- The rules of a template, which choose a mode by the first tag inside. -/
theorem inTemplateMode (h : b.Stems tags) (t : Token) :
    (b.inTemplateMode t).Stems tags t := by
  unfold Builder.inTemplateMode
  split
  · split
    · exact h.startMetadata
    -- The tag is handed back to the mode that it calls for.
    · exact ⟨rfl, h.congr rfl rfl rfl rfl⟩
  · dsimp only [Outcome.Stems]
    split
    · exact h.endTemplate
    · exact h
  · exact h.acceptInBody _

end Template

section Table

/-- The text of a table starts to wait. -/
theorem startTableText (h : b.Stems tags) (t : Token) :
    (b.startTableText t).Stems tags t := by
  unfold Builder.startTableText
  split
  · exact ⟨rfl, h.congr rfl rfl rfl rfl⟩
  · exact h.foster t

/-- What has waited is put in its place, or is moved out of the table. -/
theorem placePending (h : b.Stems tags) : b.placePending.Stems tags := by
  have hplaced : { b with pending := [] }.Stems tags := h.congr rfl rfl rfl rfl
  unfold Builder.placePending
  dsimp only
  split
  · exact hplaced.insertText _
  · exact hplaced.foster (.text b.pending)

/-- More text waits as well, and anything else lets the waiting end. -/
theorem inTableText (h : b.Stems tags) (t : Token) :
    (b.inTableText t).Stems tags t := by
  unfold Builder.inTableText
  split
  · exact h.congr rfl rfl rfl rfl
  · exact h
  -- The token that ends the waiting is looked at again.
  · exact ⟨rfl, h.placePending.congr rfl rfl rfl rfl⟩

theorem startTableInput (h : b.Stems tags) :
    (b.startTableInput tag).Stems (tags ++ [tag]) := by
  unfold Builder.startTableInput
  split
  · exact h.insertVoid
  · exact h.foster (.startTag tag)

theorem startTableForm (h : b.Stems tags) :
    (b.startTableForm tag).Stems (tags ++ [tag]) := by
  unfold Builder.startTableForm
  split
  · exact h.skip
  · exact h.insertVoid.congr rfl rfl rfl rfl

/-- The start tags in a table, which open parts or are moved out. -/
theorem startInTable (h : b.Stems tags) :
    (b.startInTable tag).Stems tags (.startTag tag) := by
  have hclosed := h.closeTo tableContext
  have hcolumns := hclosed.openImplied (show "colgroup" ∈ impliedNames by simp [impliedNames])
  have hrows := hclosed.openImplied (show "tbody" ∈ impliedNames by simp [impliedNames])
  unfold Builder.startInTable
  split
  case h_1 => exact (hclosed.markFormatting.openElement).congr rfl rfl rfl rfl
  case h_2 => exact hclosed.openElement.congr rfl rfl rfl rfl
  -- The groups that no tag asked for have no attributes. The token is handed back.
  case h_3 => exact ⟨rfl, hcolumns.congr rfl rfl rfl rfl⟩
  case h_4 | h_5 | h_6 => exact hclosed.openElement.congr rfl rfl rfl rfl
  case h_7 | h_8 | h_9 => exact ⟨rfl, hrows.congr rfl rfl rfl rfl⟩
  case h_10 =>
    split
    · exact ⟨rfl, (h.closeNamed _).resetMode⟩
    · exact h.skip
  case h_11 | h_12 | h_13 => exact h.startMetadata
  case h_14 => exact h.startTableInput
  case h_15 => exact h.startTableForm
  case h_16 => exact h.foster (.startTag tag)

/-- The end tags in a table. -/
theorem endInTable (h : b.Stems tags) (name : String) : (b.endInTable name).Stems tags := by
  unfold Builder.endInTable
  split
  · split
    · exact (h.closeNamed _).resetMode
    · exact h
  split
  · exact h
  split
  · exact h.endTemplate
  · exact h.foster (.endTag name)

/-- The rules of a table. -/
theorem inTable (h : b.Stems tags) (t : Token) : (b.inTable t).Stems tags t := by
  cases t with
  | text content => exact h.startTableText (.text content)
  | null => exact h.startTableText .null
  | comment content => exact h.insertComment content
  | startTag tag => exact h.startInTable
  | endTag name => exact h.endInTable name
  | doctype => exact h

theorem endCaption (h : b.Stems tags) : b.endCaption.Stems tags :=
  ((h.impliedEnds _).closeNamed "caption").clearFormatting.congr rfl rfl rfl rfl

/-- The rules of a caption: a part ends it and is looked at again. -/
theorem inCaption (h : b.Stems tags) (t : Token) : (b.inCaption t).Stems tags t := by
  unfold Builder.inCaption
  split
  · split
    · split
      · exact ⟨rfl, h.endCaption⟩
      · exact h.skip
    · exact h.acceptInBody _
  · split
    · dsimp only [Outcome.Stems]
      split
      · exact h.endCaption
      · exact h
    split
    · split
      · exact ⟨rfl, h.endCaption⟩
      · exact h
    split
    · exact h
    · exact h.acceptInBody _
  · exact h.acceptInBody _

/-- What does not belong into a group of columns ends it. -/
theorem afterColumnGroup (h : b.Stems tags) (t : Token) :
    (b.afterColumnGroup t).Stems tags t := by
  unfold Builder.afterColumnGroup
  split
  · exact ⟨rfl, h.pop.congr rfl rfl rfl rfl⟩
  · exact h.ignore t

/-- White space stays in a group of columns, and other text ends it. -/
theorem columnGroupText (h : b.Stems tags) (content : List Char) :
    (b.columnGroupText content).Stems tags (.text content) := by
  have htext := h.insertText (content.takeWhile Text.isHtmlSpace)
  unfold Builder.columnGroupText
  dsimp only
  split
  · exact htext
  split
  -- Only the text behind the white space is handed back.
  · exact htext.afterColumnGroup _
  · exact htext.insertText _

theorem inColumnGroup (h : b.Stems tags) (t : Token) :
    (b.inColumnGroup t).Stems tags t := by
  unfold Builder.inColumnGroup
  split
  · exact h.columnGroupText _
  · exact h.insertComment _
  · split
    · exact h.acceptInBody _
    split
    · exact h.insertVoid
    split
    · exact h.startMetadata
    · exact h.afterColumnGroup _
  · split
    · dsimp only [Outcome.Stems]
      split
      · exact h.pop.congr rfl rfl rfl rfl
      · exact h
    split
    · exact h
    split
    · exact h.endTemplate
    · exact h.afterColumnGroup _
  · exact h.afterColumnGroup _
  · exact h

theorem endRowGroup (h : b.Stems tags) : b.endRowGroup.Stems tags :=
  (h.closeTo bodyContext).pop.congr rfl rfl rfl rfl

theorem afterRowGroup (h : b.Stems tags) (t : Token) :
    (b.afterRowGroup t).Stems tags t := by
  unfold Builder.afterRowGroup
  split
  · exact ⟨rfl, h.endRowGroup⟩
  · exact h.ignore t

/-- The rules of a group of rows. -/
theorem inTableBody (h : b.Stems tags) (t : Token) :
    (b.inTableBody t).Stems tags t := by
  have hclosed := h.closeTo bodyContext
  have hrow := hclosed.openImplied (show "tr" ∈ impliedNames by simp [impliedNames])
  unfold Builder.inTableBody
  split
  · split
    · exact (hclosed.openElement).congr rfl rfl rfl rfl
    split
    · exact ⟨rfl, hrow.congr rfl rfl rfl rfl⟩
    split
    · exact h.afterRowGroup _
    · exact h.inTable _
  · split
    · dsimp only [Outcome.Stems]
      split
      · exact h.endRowGroup
      · exact h
    split
    · exact h.afterRowGroup _
    split
    · exact h
    · exact h.inTable _
  · exact h.inTable _

theorem endRow (h : b.Stems tags) : b.endRow.Stems tags :=
  (h.closeTo rowContext).pop.congr rfl rfl rfl rfl

theorem afterRow (h : b.Stems tags) (t : Token) : (b.afterRow t).Stems tags t := by
  unfold Builder.afterRow
  split
  · exact ⟨rfl, h.endRow⟩
  · exact h.ignore t

/-- The rules of a row. -/
theorem inRow (h : b.Stems tags) (t : Token) : (b.inRow t).Stems tags t := by
  unfold Builder.inRow
  split
  · split
    · exact ((h.closeTo rowContext).openElement).markFormatting.congr rfl rfl rfl rfl
    split
    · exact h.afterRow _
    · exact h.inTable _
  · split
    · dsimp only [Outcome.Stems]
      split
      · exact h.endRow
      · exact h
    split
    · exact h.afterRow _
    split
    · split
      · exact h.afterRow _
      · exact h
    split
    · exact h
    · exact h.inTable _
  · exact h.inTable _

theorem endCell (h : b.Stems tags) : b.endCell.Stems tags :=
  ((h.impliedEnds _).closeThrough (·.isIn cells)).clearFormatting.congr rfl rfl rfl rfl

/-- The rules of a cell, which a part of the table ends. -/
theorem inCell (h : b.Stems tags) (t : Token) : (b.inCell t).Stems tags t := by
  unfold Builder.inCell
  split
  · split
    · split
      · exact ⟨rfl, h.endCell⟩
      · exact h.skip
    · exact h.acceptInBody _
  · rename_i name
    split
    · split
      · exact ((h.impliedEnds _).closeNamed name).clearFormatting.congr rfl rfl rfl rfl
      · exact h
    split
    · exact h
    split
    · split
      · exact ⟨rfl, h.endCell⟩
      · exact h
    · exact h.acceptInBody _
  · exact h.acceptInBody _

end Table

section Select

theorem endOption (h : b.Stems tags) : b.endOption.Stems tags := by
  unfold Builder.endOption
  split
  · exact h.pop
  · exact h

theorem endGroup (h : b.Stems tags) : b.endGroup.Stems tags := by
  unfold Builder.endGroup
  split
  · exact h.pop
  · exact h

theorem endSelect (h : b.Stems tags) : b.endSelect.Stems tags :=
  (h.closeNamed _).resetMode

/-- The start tags in a choice. -/
theorem startInSelect (h : b.Stems tags) :
    (b.startInSelect tag).Stems tags (.startTag tag) := by
  unfold Builder.startInSelect
  split
  case h_1 => exact h.endOption.openElement
  case h_2 => exact h.endOption.endGroup.openElement
  case h_3 => exact h.endOption.endGroup.insertVoid
  case h_4 =>
    dsimp only [Outcome.Stems]
    split
    -- A choice inside a choice ends it, and opens none.
    · exact h.endSelect.skip
    · exact h.skip
  case h_5 | h_6 | h_7 =>
    split
    · exact ⟨rfl, h.endSelect⟩
    · exact h.skip
  case h_8 | h_9 => exact h.startMetadata
  case h_10 => exact h.skip

theorem endInSelect (h : b.Stems tags) (name : String) : (b.endInSelect name).Stems tags := by
  unfold Builder.endInSelect
  split
  · split
    · refine Stems.endGroup ?_
      split
      · exact h.pop
      · exact h
    · exact h.endGroup
  · exact h.endOption
  · split
    · exact h.endSelect
    · exact h
  · exact h.endTemplate
  · exact h

theorem inSelect (h : b.Stems tags) (t : Token) : (b.inSelect t).Stems tags t := by
  cases t with
  | text content => exact h.insertText content
  | comment content => exact h.insertComment content
  | startTag tag => exact h.startInSelect
  | endTag name => exact h.endInSelect name
  | null => exact h
  | doctype => exact h

/-- A choice in a table is ended by the parts of the table. -/
theorem inSelectInTable (h : b.Stems tags) (t : Token) :
    (b.inSelectInTable t).Stems tags t := by
  unfold Builder.inSelectInTable
  split
  · split
    · exact ⟨rfl, h.endSelect⟩
    · exact h.inSelect _
  · split
    · split
      · exact ⟨rfl, h.endSelect⟩
      · exact h
    · exact h.inSelect _
  · exact h.inSelect _

end Select

section Reading

/-- The text of an element that holds text only, up to its end. -/
theorem inText (h : b.Stems tags) (t : Token) : (b.inText t).Stems (t.addTo tags) := by
  unfold Builder.inText
  split
  · exact h.insertText _
  · exact h.pop.congr rfl rfl rfl rfl
  · exact h.ignore t

/-- The rules of each mode. -/
theorem inMode (h : b.Stems tags) (t : Token) : (b.inMode t).Stems tags t := by
  unfold Builder.inMode
  split
  · exact h.acceptInBody _
  · exact h.inText t
  · exact h.inTable _
  · exact h.inTableText t
  · exact h.inCaption t
  · exact h.inColumnGroup t
  · exact h.inTableBody t
  · exact h.inRow t
  · exact h.inCell t
  · exact h.inSelect _
  · exact h.inSelectInTable t
  · exact h.inTemplateMode t

/-- Tags that break out of foreign content close it first. -/
theorem closeForeign (h : b.Stems tags) : b.closeForeign.Stems tags :=
  h.close (List.dropWhile_sublist _)

/-- The start tags of graphics and formulas keep the namespace, and the names of some are spelled
anew. -/
theorem startInForeign (h : b.Stems tags) :
    (b.startInForeign tag).Stems (tags ++ [tag]) := by
  refine h.startForeign ?_
  split
  -- Only in graphics may the name differ from that of the tag.
  · rename_i hspace
    exact .inr (.inl ⟨hspace, rfl⟩)
  · exact .inl rfl

/-- An end tag closes what is open, up to an element. -/
theorem sublist_of_foreignEnd {name : String} {innermost : Bool} {stack rest : List Opened}
    (h : foreignEnd name innermost stack = .closed rest) : rest.Sublist stack := by
  fun_induction foreignEnd name innermost stack with
  | case1 => exact absurd h (by simp)
  | case2 => exact absurd h (by simp)
  | case3 => exact absurd h (by simp)
  | case4 innermost o os _ _ _ =>
      rw [← ForeignEnd.closed.inj h]
      exact List.sublist_cons_self o os
  | case5 innermost o os _ _ _ ih => exact (ih h).trans (List.sublist_cons_self o os)

/-- The rules of graphics and formulas, which leave some tokens to those of HTML. -/
theorem inForeign (h : b.Stems tags) (t : Token) : (b.inForeign t).Stems tags t := by
  unfold Builder.inForeign
  split
  · exact h.closeForeign.inMode _
  split
  · exact h.insertText _
  · exact h.insertText _
  · exact h.insertComment _
  · exact h.startInForeign
  · split
    · exact h
    · exact h.inMode _
    · rename_i hend
      exact h.close (sublist_of_foreignEnd hend)
  · exact h

/-- One look at a token. -/
theorem look (h : b.Stems tags) (t : Token) : (b.look t).Stems tags t := by
  unfold Builder.look
  split
  · exact h.inForeign t
  · exact h.inMode t

/-- A token that is handed back was not used, so it may be looked at again. -/
theorem lookAgain (h : b.Stems tags) (t : Token) (looks : Nat) :
    (Builder.lookAgain looks b t).Stems (t.addTo tags) := by
  -- The induction is on the looks that are left; the tag counts only when the last one uses it.
  induction looks generalizing b t with
  | zero => exact h.ignore t
  | succ looks ih =>
      have hlook := h.look t
      unfold Builder.lookAgain
      split
      · rename_i c hc
        rw [hc] at hlook
        exact hlook
      · rename_i t' c hc
        rw [hc] at hlook
        exact hlook.1 ▸ ih hlook.2 t'

/-- A token keeps it so that all elements can be traced to start tags. -/
theorem accept (h : b.Stems tags) (t : Token) : (b.accept t).Stems (t.addTo tags) := by
  have hb : { b with skipsLineFeed := false }.Stems tags := h.congr rfl rfl rfl rfl
  unfold Builder.accept
  dsimp only
  split
  · exact hb.ignore t
  · rename_i t' _ hkept
    have hsame : t'.addTo tags = t.addTo tags := by
      split at hkept
      · exact Token.addTo_of_withoutLineFeed hkept tags
      · rw [Option.some.inj hkept]
    exact hsame ▸ hb.lookAgain t' _
  · exact hb.ignore t

theorem foldl_accept (h : b.Stems tags) (ts : List Token) :
    (ts.foldl Builder.accept b).Stems (tags ++ startTags ts) := by
  induction ts generalizing b tags with
  | nil => exact (List.append_nil tags).symm ▸ h
  | cons t ts ih => exact t.addTo_append tags ts ▸ ih (h.accept t)

/-- All tokens of a piece are taken, with the start tags among them. -/
theorem take (h : b.Stems tags) (p : Piece) :
    (b.take p).Stems (tags ++ startTags p.tokens) := by
  refine foldl_accept ?_ p.tokens
  split
  · exact h.congr rfl rfl rfl rfl
  · exact h

/-- Text that still waits at the end is put in its place. -/
theorem finish (h : b.Stems tags) : b.finish.Stems tags := by
  unfold Builder.finish
  split
  · exact h.placePending
  · exact h

end Reading

end Builder.Stems

end Html

end SoleRoot

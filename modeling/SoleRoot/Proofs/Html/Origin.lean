import Mathlib.Data.List.TakeWhile
import Mathlib.Logic.Function.Basic
import SoleRoot.Html.Rules.Body
import SoleRoot.Proofs.Html.Multiplicity

/-!
# Where Elements Come From

Each element of a growing tree comes from a start tag of its own.

An element takes its attributes from a tag, and it does so when it is put into the
tree. After that it may be moved and its children may change, but not its attributes.
The few elements that no tag asked for have none. A formatting element that is opened
again, or copied around a block, takes the attributes of the tag on the list of
formatting elements; so several formatting elements may come from one start tag, but no
two other elements do.

To say so, the start tags that were read so far are listed in their order, and a number
of an element leads to the place in this list where its tag stands. `Builder.Stems`
says of a state that there is such an account of all its elements. A rule that opens the
element of a start tag makes the list one longer; all other steps leave it alone. So
there is no way to open two elements for one tag.

That a number stands for one element only is part of the account. It depends on how
elements are moved: what is put elsewhere was taken out before, and the root is never
moved, since an element that is open inside another is not the root.

## Main definitions

* `impliedNames`: The names of elements that no tag asks for.
* `formattingNames`: The names of elements that may be opened again.
* `Owned`: An element has the name and the attributes of a start tag.
* `Owners`: Which start tag each number leads to.
* `Builder.Traced`: All elements of a state are those of their start tags.
* `Builder.Stems`: There is an account of the elements of a state.

## Theorems

* `Builder.Traced.insertItem`: What is new in the tree comes from its own tag.
* `Builder.Stems.openElement`: A start tag opens one element.
* `Builder.Stems.reopenFormatting`: Elements that are opened again have their tags.
* `Builder.Stems.adopt`: So have the copies at the end of a formatting element.
-/

namespace SoleRoot

namespace Html

/-- Whether an element of a name is one that a tag may stand for. -/
def TagToken.Names (tag : TagToken) (n : Name) : Prop :=
  n.localName = tag.name ∨
    n.space = .svg ∧ n.localName = Foreign.graphicsName tag.name ∨
    n = .html "img" ∧ tag.name = "image"

/-- The names of the elements that no tag asks for: the root, and what a rule puts into
    the tree of its own. -/
def impliedNames : List String :=
  ["html", "p", "br", "colgroup", "tbody", "tr"]

/-- The names of the elements that may be opened again. -/
def formattingNames : List String :=
  Builder.phrases ++ ["a", "nobr"]

/-- Whether an element has the name and the attributes of the start tag at a place of a
    list. Without a place it is one that no tag asked for. -/
def Owned (tags : List TagToken) (n : Name) (attributes : List Attribute) : Option Nat → Prop
  | none => n.localName ∈ impliedNames ∧ attributes = []
  | some place => ∃ tag, tags[place]? = some tag ∧ tag.Names n ∧
      attributes = Foreign.attributesIn n.space tag.attributes

/-- Whether `owner` leads numbers below a bound to places of a list, and no two of them to
    one place, but for the places of formatting elements. -/
structure Owners (tags : List TagToken) (owner : Nat → Option Nat) (bound : Nat) : Prop where
  fresh : ∀ id, bound ≤ id → owner id = none
  used : ∀ id place, owner id = some place → place < tags.length
  shared : ∀ id id' place, owner id = some place → owner id' = some place →
    id = id' ∨ ∃ tag, tags[place]? = some tag ∧ tag.name ∈ formattingNames

/-- Whether all elements of an item have numbers below a bound, and what their owners gave
    them. -/
def Item.Traced (tags : List TagToken) (owner : Nat → Option Nat) (bound : Nat)
    (i : Item) : Prop :=
  i.every fun id n attributes => id < bound ∧ Owned tags n attributes (owner id)

/-- Whether the tag of an entry is the one that its element's number leads to. -/
def Entry.Traced (tags : List TagToken) (owner : Nat → Option Nat) : Entry → Prop
  | .mark => True
  | .element o tag => tag.name ∈ formattingNames ∧
      ∃ place, owner o.id = some place ∧ tags[place]? = some tag

/-- Whether all elements of a state are those of their owners. -/
structure Builder.Traced (tags : List TagToken) (owner : Nat → Option Nat) (b : Builder) :
    Prop where
  owners : Owners tags owner b.nextId
  tree : b.tree.Traced tags owner b.nextId
  once : b.tree.Once
  root : b.tree.hasId 0 = true
  formatting : ∀ e ∈ b.formatting, e.Traced tags owner
  /-- Only the outermost open element may be the root. -/
  inner : b.stack.Pairwise fun o _ => o.id ≠ 0
  opened : ∀ o ∈ b.stack, o.id < b.nextId

/-- Whether all elements of a state can be traced to start tags of a list. -/
def Builder.Stems (tags : List TagToken) (b : Builder) : Prop :=
  ∃ owner, b.Traced tags owner

section Accounts

variable {tags tags' : List TagToken} {owner : Nat → Option Nat} {bound : Nat} {v : Option Nat}
variable {tag : TagToken}

/-- What stands at a place still does when the list grows. -/
theorem getElem?_of_le (hle : tags <+: tags') {place : Nat} (h : tags[place]? = some tag) :
    tags'[place]? = some tag := by
  rcases hle with ⟨more, rfl⟩
  rcases List.getElem?_eq_some_iff.1 h with ⟨hlt, _⟩
  rw [List.getElem?_append_left hlt, h]

/-- Places stay what they are when the list grows. -/
theorem Owned.mono (hle : tags <+: tags') {n : Name} {attributes : List Attribute}
    (h : Owned tags n attributes v) : Owned tags' n attributes v := by
  cases v with
  | none => exact h
  | some place =>
      rcases h with ⟨tag, hget, hn⟩
      exact ⟨tag, getElem?_of_le hle hget, hn⟩

/-- So do the owners. -/
theorem Owners.mono (h : Owners tags owner bound) (hle : tags <+: tags') :
    Owners tags' owner bound where
  fresh := h.fresh
  used id place hid := Nat.lt_of_lt_of_le (h.used id place hid) hle.length_le
  shared id id' place hid hid' := by
    rcases h.shared id id' place hid hid' with heq | ⟨tag, hget, htag⟩
    · exact .inl heq
    · exact .inr ⟨tag, getElem?_of_le hle hget, htag⟩

/-- The next number is led to a place. Other numbers may lead there only if the element
    is one that may be opened again. -/
theorem Owners.add (h : Owners tags owner bound) (hv : ∀ place, v = some place →
      place < tags.length ∧ ∀ id, owner id = some place →
        ∃ tag, tags[place]? = some tag ∧ tag.name ∈ formattingNames) :
    Owners tags (Function.update owner bound v) (bound + 1) where
  fresh id hid := by
    rw [Function.update_of_ne (by omega)]
    exact h.fresh id (by omega)
  used id place hid := by
    -- The new number leads to the given place, and all others where they led before.
    by_cases heq : id = bound
    · rw [heq, Function.update_self] at hid
      exact (hv place hid).1
    · rw [Function.update_of_ne heq] at hid
      exact h.used id place hid
  shared id id' place hid hid' := by
    by_cases heq : id = bound
    · by_cases heq' : id' = bound
      · exact .inl (heq.trans heq'.symm)
      · rw [heq, Function.update_self] at hid
        rw [Function.update_of_ne heq'] at hid'
        exact .inr ((hv place hid).2 id' hid')
    · rw [Function.update_of_ne heq] at hid
      by_cases heq' : id' = bound
      · rw [heq', Function.update_self] at hid'
        exact .inr ((hv place hid').2 id hid)
      · rw [Function.update_of_ne heq'] at hid'
        exact h.shared id id' place hid hid'

/-- No number leads behind the end of the list, so a tag more is for one element. -/
theorem Owners.own (h : Owners tags owner bound) (tag : TagToken) :
    Owners (tags ++ [tag]) (Function.update owner bound (some tags.length)) (bound + 1) := by
  refine (h.mono (List.prefix_append tags [tag])).add fun place hplace => ?_
  rw [← Option.some.inj hplace]
  refine ⟨by simp, fun id hid => ?_⟩
  exact absurd (h.used id _ hid) (Nat.lt_irrefl _)

/-- The number of an element that no tag asked for leads nowhere. -/
theorem Owners.implied (h : Owners tags owner bound) :
    Owners tags (Function.update owner bound none) (bound + 1) :=
  h.add fun _ hplace => absurd hplace (by simp)

/-- The number of a copy leads where that of the formatting element does. -/
theorem Owners.copy (h : Owners tags owner bound) {place : Nat} (hget : tags[place]? = some tag)
    (hname : tag.name ∈ formattingNames) :
    Owners tags (Function.update owner bound (some place)) (bound + 1) := by
  refine h.add fun place' hplace => ?_
  rw [← Option.some.inj hplace]
  exact ⟨(List.getElem?_eq_some_iff.1 hget).1, fun _ _ => ⟨tag, hget, hname⟩⟩

theorem Item.Traced.mono (hle : tags <+: tags') {i : Item} (h : i.Traced tags owner bound) :
    i.Traced tags' owner bound :=
  Item.every_mono (fun _ _ _ hid => ⟨hid.1, hid.2.mono hle⟩) i h

/-- A number more does not matter for the elements that are there. -/
theorem Item.Traced.add {i : Item} (h : i.Traced tags owner bound) :
    i.Traced tags (Function.update owner bound v) (bound + 1) := by
  refine Item.every_mono (fun id _ _ hid => ⟨Nat.lt_succ_of_lt hid.1, ?_⟩) i h
  rw [Function.update_of_ne (Nat.ne_of_lt hid.1)]
  exact hid.2

/-- All numbers of such an item are below the bound. -/
theorem Item.Traced.below {i : Item} (h : i.Traced tags owner bound) : i.every (Below bound) :=
  Item.every_mono (fun _ _ _ hid => hid.1) i h

/-- The tag of an entry stays at its place when the list grows. -/
theorem Entry.Traced.mono (hle : tags <+: tags') {e : Entry} (h : e.Traced tags owner) :
    e.Traced tags' owner := by
  cases e with
  | mark => trivial
  | element o tag =>
      rcases h with ⟨hname, place, hplace, hget⟩
      exact ⟨hname, place, hplace, getElem?_of_le hle hget⟩

/-- A number more does not matter for the entries that are there. -/
theorem Entry.Traced.add {e : Entry} (h : e.Traced tags owner) (howners : Owners tags owner bound) :
    e.Traced tags (Function.update owner bound v) := by
  cases e with
  | mark => trivial
  | element o tag =>
      rcases h with ⟨hname, place, hplace, hget⟩
      -- The number of the entry leads somewhere, so it is not the next one.
      have hid : o.id ≠ bound := by
        rintro heq
        rw [howners.fresh o.id (by omega)] at hplace
        exact absurd hplace (by simp)
      exact ⟨hname, place, by rw [Function.update_of_ne hid, hplace], hget⟩

end Accounts

namespace Builder.Traced

variable {tags tags' : List TagToken} {owner : Nat → Option Nat} {b c : Builder}
variable {tag : TagToken} {v : Option Nat}

theorem mono (h : b.Traced tags owner) (hle : tags <+: tags') : b.Traced tags' owner where
  owners := h.owners.mono hle
  tree := h.tree.mono hle
  once := h.once
  root := h.root
  formatting e he := (h.formatting e he).mono hle
  inner := h.inner
  opened := h.opened

/-- Only a part of the state matters. -/
theorem congr (h : b.Traced tags owner) (htree : c.tree = b.tree) (hnext : c.nextId = b.nextId)
    (hformatting : c.formatting = b.formatting) (hstack : c.stack = b.stack) :
    c.Traced tags owner where
  owners := hnext ▸ h.owners
  tree := by rw [htree, hnext]; exact h.tree
  once := htree ▸ h.once
  root := htree ▸ h.root
  formatting := hformatting ▸ h.formatting
  inner := hstack ▸ h.inner
  opened := by rw [hstack, hnext]; exact h.opened

/-- Elements may be closed. -/
theorem close (h : b.Traced tags owner) {stack : List Opened} (hsub : stack.Sublist b.stack) :
    { b with stack }.Traced tags owner :=
  { h with
    inner := h.inner.sublist hsub
    opened := fun o ho => h.opened o (hsub.subset ho) }

/-- Entries may be taken from the list. -/
theorem forget (h : b.Traced tags owner) {formatting : List Entry}
    (hsub : formatting.Sublist b.formatting) : { b with formatting }.Traced tags owner :=
  { h with formatting := fun e he => h.formatting e (hsub.subset he) }

/-- An element may be opened that is not the root. -/
theorem push (h : b.Traced tags owner) {o : Opened} (hroot : o.id ≠ 0)
    (hopened : o.id < b.nextId) : { b with stack := o :: b.stack }.Traced tags owner :=
  { h with
    inner := List.pairwise_cons.2 ⟨fun _ _ => hroot, h.inner⟩
    opened := List.forall_mem_cons.2 ⟨hopened, h.opened⟩ }

/-- An entry may be put on the list. -/
theorem remember (h : b.Traced tags owner) {e : Entry} (he : e.Traced tags owner) :
    { b with formatting := e :: b.formatting }.Traced tags owner :=
  { h with formatting := List.forall_mem_cons.2 ⟨he, h.formatting⟩ }

/-- The root has the first number. -/
theorem nextId_pos (h : b.Traced tags owner) : 0 < b.nextId := by
  have hroot := h.root
  have hbelow := h.tree.below
  cases htree : b.tree with
  | element id name attributes children =>
      rw [htree, Item.every] at hbelow
      exact Nat.lt_of_le_of_lt (Nat.zero_le id) hbelow.1
  | text content => rw [htree] at hroot; exact Bool.noConfusion hroot
  | comment content => rw [htree] at hroot; exact Bool.noConfusion hroot

/-- The next number does not occur yet. -/
theorem times_nextId (h : b.Traced tags owner) : b.tree.times b.nextId = 0 :=
  Item.times_of_le (Nat.le_refl _) b.tree h.tree.below

/-- The next number may be given to an owner. -/
theorem add (h : b.Traced tags owner)
    (howners : Owners tags (Function.update owner b.nextId v) (b.nextId + 1)) :
    { b with nextId := b.nextId + 1 }.Traced tags (Function.update owner b.nextId v) where
  owners := howners
  tree := h.tree.add
  once := h.once
  root := h.root
  formatting e he := (h.formatting e he).add h.owners
  inner := h.inner
  opened o ho := Nat.lt_succ_of_lt (h.opened o ho)

/-- An item may be put into the tree that shares no number with it. -/
theorem insertItem (h : b.Traced tags owner) {i : Item} (hi : i.Traced tags owner b.nextId)
    (hapart : ∀ k, b.tree.times k + i.times k ≤ 1) (place : Place) :
    { b with tree := b.tree.insert place i }.Traced tags owner :=
  { h with
    tree := Item.every_insert _ hi h.tree
    once := fun k => (Item.times_insert_le h.once place i).trans (hapart k)
    root := (Item.hasId_insert 0 b.tree place i).trans h.root }

/-- A new element comes from its owner. -/
theorem insertElement (h : b.Traced tags owner) {n : Name} {attributes : List Attribute}
    (howners : Owners tags (Function.update owner b.nextId v) (b.nextId + 1))
    (hn : Owned tags n attributes v) :
    (b.insertElement n attributes).Traced tags (Function.update owner b.nextId v) := by
  refine ((h.add howners).insertItem (i := .element b.nextId n attributes []) ?_ ?_ _).congr
    rfl rfl rfl rfl
  · rw [Item.Traced, Item.every, Item.everyAll, Function.update_self]
    exact ⟨⟨Nat.lt_succ_self _, hn⟩, trivial⟩
  -- The next number is new, so it occurs in the new element only.
  · intro k
    have hnew := h.times_nextId
    have honce := h.once k
    rw [Item.times, Item.timesAll]
    dsimp only
    split
    · rename_i heq
      subst heq
      omega
    · omega

/-- A new element is opened with the next number. -/
theorem openNamed (h : b.Traced tags owner) {n : Name} {attributes : List Attribute}
    (howners : Owners tags (Function.update owner b.nextId v) (b.nextId + 1))
    (hn : Owned tags n attributes v) :
    (b.openNamed n attributes).Traced tags (Function.update owner b.nextId v) := by
  have hpushed := (h.insertElement howners hn).push (o := ⟨b.nextId, n⟩)
    (Nat.ne_of_gt h.nextId_pos) (Nat.lt_succ_self _)
  exact hpushed.congr rfl rfl rfl rfl

/-- The element of an entry is opened again. -/
theorem openEntry (h : b.Traced tags owner) {place : Nat} (hget : tags[place]? = some tag)
    (hname : tag.name ∈ formattingNames) :
    (b.openEntry tag).Traced tags (Function.update owner b.nextId (some place)) := by
  -- The copy leads to the start tag at the entry's place, and so does its own entry.
  have hopen : (b.openElement tag).Traced tags (Function.update owner b.nextId (some place)) :=
    h.openNamed (h.owners.copy hget hname) ⟨tag, hget, .inl rfl, rfl⟩
  have hentry : (Entry.element ⟨b.nextId, .html tag.name⟩ tag).Traced tags
      (Function.update owner b.nextId (some place)) :=
    ⟨hname, place, Function.update_self .., hget⟩
  exact (hopen.remember hentry).congr rfl rfl rfl rfl

end Builder.Traced

/-- At the start there is the root only, which no tag asked for. -/
theorem stems_start : Builder.Stems [] {} := by
  refine ⟨fun _ => none, ⟨fun _ _ => rfl, by simp, by simp⟩, ?_, fun k => ?_, rfl, by simp,
    by simp, by simp [rootElement]⟩
  · rw [Item.Traced, Item.every, Item.everyAll]
    exact ⟨⟨by decide, by simp [rootElement, Name.html, impliedNames], rfl⟩, trivial⟩
  · rw [Item.times, Item.timesAll]
    split
    · exact Nat.le_refl _
    · exact Nat.zero_le _

namespace Builder.Stems

variable {tags tags' : List TagToken} {b c : Builder} {tag : TagToken}

theorem mono (h : b.Stems tags) (hle : tags <+: tags') : b.Stems tags' := by
  rcases h with ⟨owner, h⟩
  exact ⟨owner, h.mono hle⟩

/-- A start tag may be ignored. -/
theorem skip (h : b.Stems tags) : b.Stems (tags ++ [tag]) :=
  h.mono (List.prefix_append tags [tag])

/-- Only a part of the state matters. -/
theorem congr (h : b.Stems tags) (htree : c.tree = b.tree) (hnext : c.nextId = b.nextId)
    (hformatting : c.formatting = b.formatting) (hstack : c.stack = b.stack) : c.Stems tags := by
  rcases h with ⟨owner, h⟩
  exact ⟨owner, h.congr htree hnext hformatting hstack⟩

/-- Elements may be closed. -/
theorem close (h : b.Stems tags) {stack : List Opened} (hsub : stack.Sublist b.stack) :
    { b with stack }.Stems tags := by
  rcases h with ⟨owner, h⟩
  exact ⟨owner, h.close hsub⟩

/-- Entries may be taken from the list. -/
theorem forget (h : b.Stems tags) {formatting : List Entry}
    (hsub : formatting.Sublist b.formatting) : { b with formatting }.Stems tags := by
  rcases h with ⟨owner, h⟩
  exact ⟨owner, h.forget hsub⟩

/-! ## Additions -/

/-- What is no element can be put anywhere. -/
theorem insertPlain (h : b.Stems tags) {i : Item} (hi : ∀ k, i.times k = 0)
    (hevery : ∀ p, i.every p) : (b.insertItem i).Stems tags := by
  rcases h with ⟨owner, h⟩
  refine ⟨owner, h.insertItem (hevery _) (fun k => ?_) _⟩
  rw [hi k]
  exact h.once k

/-- Comments and texts have no attributes. -/
theorem insertComment (h : b.Stems tags) (content : String) :
    (b.insertComment content).Stems tags :=
  h.insertPlain (fun k => by rw [Item.times]) fun p => Item.every_comment p content

/-- A text of no characters is not put anywhere. -/
theorem insertText (h : b.Stems tags) (content : List Char) :
    (b.insertText content).Stems tags := by
  unfold Builder.insertText
  split
  · exact h
  · exact h.insertPlain (fun k => by rw [Item.times]) fun p => Item.every_text p _

/-- The place behind the list's end is that of the next tag. -/
theorem getElem?_next (tags : List TagToken) (tag : TagToken) :
    (tags ++ [tag])[tags.length]? = some tag := by
  simp

/-- One start tag more gives one element more. -/
theorem insertElement (h : b.Stems tags) {n : Name} (hn : tag.Names n) :
    (b.insertElement n (Foreign.attributesIn n.space tag.attributes)).Stems (tags ++ [tag]) := by
  rcases h with ⟨owner, h⟩
  exact ⟨_, (h.mono (List.prefix_append tags [tag])).insertElement (h.owners.own tag)
    ⟨tag, getElem?_next tags tag, hn, rfl⟩⟩

/-- One start tag more may open one element more. -/
theorem openNamed (h : b.Stems tags) {n : Name} (hn : tag.Names n) :
    (b.openNamed n (Foreign.attributesIn n.space tag.attributes)).Stems (tags ++ [tag]) := by
  rcases h with ⟨owner, h⟩
  exact ⟨_, (h.mono (List.prefix_append tags [tag])).openNamed (h.owners.own tag)
    ⟨tag, getElem?_next tags tag, hn, rfl⟩⟩

theorem openElement (h : b.Stems tags) : (b.openElement tag).Stems (tags ++ [tag]) :=
  h.openNamed (.inl rfl)

/-- An element that holds nothing comes from its tag, too. -/
theorem insertVoid (h : b.Stems tags) : (b.insertVoid tag).Stems (tags ++ [tag]) :=
  h.insertElement (.inl rfl)

/-- An element that no tag asked for leads nowhere. -/
theorem openImplied (h : b.Stems tags) {name : String} (hname : name ∈ impliedNames) :
    (b.openImplied name).Stems tags := by
  rcases h with ⟨owner, h⟩
  exact ⟨_, h.openNamed h.owners.implied ⟨hname, rfl⟩⟩

/-- So does one that is not opened. -/
theorem insertImplied (h : b.Stems tags) {name : String} (hname : name ∈ impliedNames) :
    (b.insertVoid { name }).Stems tags := by
  rcases h with ⟨owner, h⟩
  exact ⟨_, h.insertElement h.owners.implied ⟨hname, rfl⟩⟩

theorem openText (h : b.Stems tags) (reading : Reading) :
    (b.openText tag reading).Stems (tags ++ [tag]) :=
  h.openElement.congr rfl rfl rfl rfl

/-! ## Closing -/

theorem pop (h : b.Stems tags) : b.pop.Stems tags :=
  h.close (List.drop_sublist _ _)

/-- Closing only takes elements away from the stack. -/
theorem closeThrough (h : b.Stems tags) (p : Name → Bool) : (b.closeThrough p).Stems tags :=
  h.close ((List.drop_sublist _ _).trans (List.dropWhile_sublist _))

theorem closeTo (h : b.Stems tags) (names : List String) : (b.closeTo names).Stems tags :=
  h.close (List.dropWhile_sublist _)

theorem impliedEnds (h : b.Stems tags) (names : List String) :
    (b.impliedEnds names).Stems tags :=
  h.close (List.dropWhile_sublist _)

theorem impliedEndsExcept (h : b.Stems tags) (name : String) :
    (b.impliedEndsExcept name).Stems tags :=
  h.impliedEnds _

theorem closeNamed (h : b.Stems tags) (name : String) : (b.closeNamed name).Stems tags :=
  h.closeThrough _

theorem closeParagraph (h : b.Stems tags) : b.closeParagraph.Stems tags :=
  (h.impliedEndsExcept "p").closeNamed "p"

theorem endParagraph (h : b.Stems tags) : b.endParagraph.Stems tags := by
  unfold Builder.endParagraph
  split
  · exact h.closeParagraph
  · exact h

theorem dropOpened (h : b.Stems tags) (id : Nat) : (b.dropOpened id).Stems tags :=
  h.close List.filter_sublist

theorem resetMode (h : b.Stems tags) : b.resetMode.Stems tags :=
  h.congr rfl rfl rfl rfl

/-! ## Formatting elements -/

theorem markFormatting (h : b.Stems tags) : b.markFormatting.Stems tags := by
  rcases h with ⟨owner, h⟩
  exact ⟨owner, h.remember trivial⟩

theorem clearFormatting (h : b.Stems tags) : b.clearFormatting.Stems tags :=
  h.forget ((List.drop_sublist _ _).trans (List.dropWhile_sublist _))

theorem dropFormatting (h : b.Stems tags) (id : Nat) : (b.dropFormatting id).Stems tags :=
  h.forget List.filter_sublist

/-- The elements opened again are those of the tags on the list. -/
theorem reopenFormatting (h : b.Stems tags) : b.reopenFormatting.Stems tags := by
  -- Each element that is opened gets an owner more, so the owners are not fixed in the induction.
  have hfold (es : List Entry) (owner : Nat → Option Nat) (c : Builder)
      (hes : ∀ e ∈ es, e.Traced tags owner) (hc : c.Traced tags owner) :
      (es.foldl (fun b e => match e with
        | .mark => b
        | .element _ tag => b.openEntry tag) c).Stems tags := by
    induction es generalizing owner c with
    | nil => exact ⟨owner, hc⟩
    | cons e es ih =>
        rcases List.forall_mem_cons.1 hes with ⟨he, hrest⟩
        cases e with
        | mark => exact ih owner c hrest hc
        | element o tag =>
            rcases he with ⟨hname, place, _, hget⟩
            exact ih _ _ (fun e he => (hrest e he).add hc.owners) (hc.openEntry hget hname)
  rcases h with ⟨owner, h⟩
  refine hfold _ owner _ (fun e he => ?_) (h.forget (List.drop_sublist _ _))
  exact h.formatting e (List.takeWhile_subset _ (List.mem_reverse.1 he))

theorem limitFormatting (h : b.Stems tags) (tag : TagToken) :
    (b.limitFormatting tag).Stems tags := by
  unfold Builder.limitFormatting
  split
  · exact h.dropFormatting _
  · exact h

/-- A formatting element and its entry come from one tag. -/
theorem openFormatting (h : b.Stems tags) (hname : tag.name ∈ formattingNames) :
    (b.openFormatting tag).Stems (tags ++ [tag]) := by
  rcases h.limitFormatting tag with ⟨owner, hlimited⟩
  exact ⟨_, (hlimited.mono (List.prefix_append tags [tag])).openEntry
    (getElem?_next tags tag) hname⟩

/-- To close an element is to take those inside it away. -/
theorem sublist_stackWithout? {name : String} {stack rest : List Opened}
    (h : Builder.stackWithout? name stack = some rest) : rest.Sublist stack := by
  induction stack with
  | nil => simp [Builder.stackWithout?] at h
  | cons o os ih =>
      rw [Builder.stackWithout?] at h
      split at h
      · exact Option.some.inj h ▸ List.sublist_cons_self o os
      split at h
      · exact absurd h (by simp)
      · exact (ih h).trans (List.sublist_cons_self o os)

theorem closeOther (h : b.Stems tags) (name : String) : (b.closeOther name).Stems tags := by
  refine h.close ?_
  cases hwithout : Builder.stackWithout? name b.stack with
  | none => exact List.Sublist.refl _
  | some rest => exact sublist_stackWithout? hwithout

end Builder.Stems

namespace Builder

section Finding

variable {tags : List TagToken} {owner : Nat → Option Nat} {b : Builder} {tag : TagToken}

/-- An entry that is found is one of the list. -/
theorem Traced.of_findFormatting? (h : b.Traced tags owner) {name : String} {o : Opened}
    (hfind : b.findFormatting? name = some (o, tag)) :
    (Entry.element o tag).Traced tags owner := by
  rcases List.exists_of_findSome?_eq_some hfind with ⟨e, he, hentry⟩
  have htraced := h.formatting e (List.takeWhile_subset _ he)
  cases e with
  | mark => simp at hentry
  | element o' tag' =>
      simp only [Option.ite_none_right_eq_some, Option.some.injEq, Prod.mk.injEq] at hentry
      rcases hentry with ⟨_, rfl, rfl⟩
      exact htraced

/-- The tag that is found for a number is the one that the number leads to. -/
theorem Traced.of_formattingTag? (h : b.Traced tags owner) {id : Nat}
    (hfind : b.formattingTag? id = some tag) :
    tag.name ∈ formattingNames ∧ ∃ place, owner id = some place ∧ tags[place]? = some tag := by
  rcases List.exists_of_findSome?_eq_some hfind with ⟨e, he, hentry⟩
  have htraced := h.formatting e he
  cases e with
  | mark => simp at hentry
  | element o tag' =>
      simp only [Option.ite_none_right_eq_some, Option.some.injEq] at hentry
      rcases hentry with ⟨hid, rfl⟩
      exact beq_iff_eq.1 hid ▸ htraced

end Finding

/-- Whether all elements can be traced while a block is adopted, those of the item in hand
    included. What is in hand is not in the tree. -/
structure Adoption.Traced (tags : List TagToken) (owner : Nat → Option Nat) (entry : Entry)
    (a : Adoption) : Prop where
  builder : a.builder.Traced tags owner
  item : a.item.Traced tags owner a.builder.nextId
  apart : ∀ k, a.builder.tree.times k + a.item.times k ≤ 1
  entry : entry.Traced tags owner
  copies : ∀ o ∈ a.copies, o.id ≠ 0 ∧ o.id < a.builder.nextId

/-- A copy of a formatting element around what a block holds. -/
def wrapped (b : Builder) (tag : TagToken) (block : Opened) : Item :=
  .element b.nextId (.html tag.name) (Foreign.attributesIn .html tag.attributes)
    (b.tree.childrenOf block.id)

/-- A block that holds such a copy. -/
def adopted (b : Builder) (tag : TagToken) (block : Opened) : Item :=
  ((b.tree.find? block.id).getD (b.wrapped tag block)).setChildren block.id
    [b.wrapped tag block]

/-- What is in hand before the elements between are passed by. -/
def adoption (b : Builder) (tag : TagToken) (block : Opened) : Adoption where
  builder := { b with nextId := b.nextId + 1, tree := b.tree.remove block.id }
  item := b.adopted tag block

section Adopting

variable {tags : List TagToken} {owner : Nat → Option Nat} {a : Adoption} {b : Builder}
variable {tag : TagToken} {entry : Entry}

/-- An element that is put around the item in hand has a number of its own. -/
theorem Traced.apart_copy {tree i : Item} (hapart : ∀ k, tree.times k + i.times k ≤ 1)
    {bound : Nat} (htree : tree.Traced tags owner bound) (hi : i.Traced tags owner bound)
    (name : Name) (attributes : List Attribute) (k : Nat) :
    tree.times k + (Item.element bound name attributes [i]).times k ≤ 1 := by
  have hboth := hapart k
  rw [Item.times, Item.timesAll_singleton]
  split
  · rename_i heq
    have hnone := Item.times_of_le (Nat.le_of_eq heq) tree htree.below
    have hnone' := Item.times_of_le (Nat.le_of_eq heq) i hi.below
    omega
  · omega

/-- An element that is passed by is copied around the item in hand, or left out. -/
theorem Adoption.Traced.pass (h : a.Traced tags owner entry) (index : Nat) (node : Opened) :
    ∃ owner', (a.pass index node).Traced tags owner' entry := by
  unfold Adoption.pass
  dsimp only
  split
  · exact ⟨owner, h⟩
  · rename_i tag hfind
    rcases h.builder.of_formattingTag? hfind with ⟨hname, place, _, hget⟩
    split
    · exact ⟨owner, { h with builder := h.builder.forget List.filter_sublist }⟩
    · -- The copy leads to the start tag that the element leads to.
      have hcopy := h.builder.add (h.builder.owners.copy hget hname)
      have hitem : (Item.element a.builder.nextId (.html tag.name)
          (Foreign.attributesIn .html tag.attributes) [a.item]).Traced tags
          (Function.update owner a.builder.nextId (some place)) (a.builder.nextId + 1) := by
        rw [Item.Traced, Item.every, Item.everyAll_singleton, Function.update_self]
        exact ⟨⟨Nat.lt_succ_self _, tag, hget, .inl rfl, rfl⟩, h.item.add⟩
      refine ⟨_, ⟨{ hcopy with formatting := fun e he => ?_ }, hitem,
        Traced.apart_copy h.apart h.builder.tree h.item _ _, h.entry.add h.builder.owners,
        List.forall_mem_cons.2 ⟨?_, fun o ho => ?_⟩⟩⟩
      · rcases List.mem_map.1 he with ⟨e', he', rfl⟩
        split
        · exact ⟨hname, place, Function.update_self .., hget⟩
        · exact hcopy.formatting e' he'
      · exact ⟨Nat.ne_of_gt h.builder.nextId_pos, Nat.lt_succ_self _⟩
      · exact ⟨(h.copies o ho).1, Nat.lt_succ_of_lt (h.copies o ho).2⟩

/-- So are all elements between. -/
theorem Adoption.Traced.passAll (h : a.Traced tags owner entry) (index : Nat)
    (nodes : List Opened) : ∃ owner', (a.passAll index nodes).Traced tags owner' entry := by
  induction nodes generalizing a index owner with
  | nil => exact ⟨owner, h⟩
  | cons node nodes ih =>
      rcases h.pass index node with ⟨owner', hpassed⟩
      exact ih hpassed (index + 1)

/-- An entry that is put on the list is the only new one. -/
theorem mem_insertEntryAfter {id : Nat} {entry e : Entry} {formatting : List Entry}
    (he : e ∈ insertEntryAfter id entry formatting) : e = entry ∨ e ∈ formatting := by
  rcases List.mem_flatMap.1 he with ⟨e', he', hmem⟩
  split at hmem
  · rcases List.mem_cons.1 hmem with rfl | hmem
    · exact .inl rfl
    · exact .inr (List.mem_singleton.1 hmem ▸ he')
  · exact .inr (List.mem_singleton.1 hmem ▸ he')

/-- A block is in the tree, and its children are in the copy then, or it is not, and
    there is nothing but the copy. -/
theorem adopted_cases (b : Builder) (tag : TagToken) {block : Opened}
    (hopened : block.id < b.nextId) :
    (b.tree.find? block.id = none ∧ b.adopted tag block = .element b.nextId (.html tag.name)
      (Foreign.attributesIn .html tag.attributes) []) ∨
    ∃ name attributes children,
      b.tree.find? block.id = some (.element block.id name attributes children) ∧
      b.adopted tag block = .element block.id name attributes
        [.element b.nextId (.html tag.name) (Foreign.attributesIn .html tag.attributes)
          children] := by
  have hne : b.nextId ≠ block.id := by omega
  cases hfind : b.tree.find? block.id with
  | none =>
      refine .inl ⟨rfl, ?_⟩
      rw [adopted, wrapped, Item.childrenOf, hfind, Option.getD_none, Option.map_none,
        Option.getD_none, Item.setChildren, if_neg hne, Item.setChildrenAll]
  | some i =>
      rcases Item.eq_element_of_find? _ hfind with ⟨name, attributes, children, rfl⟩
      refine .inr ⟨name, attributes, children, rfl, ?_⟩
      rw [adopted, wrapped, Item.childrenOf, hfind, Option.getD_some, Option.map_some,
        Option.getD_some, Item.setChildren, if_pos rfl, Item.children]

/-- The block that is adopted, and the tree that it was taken out of. -/
theorem Traced.adopted (h : b.Traced tags owner) {block : Opened} (hinner : block.id ≠ 0)
    (hopened : block.id < b.nextId) {place : Nat} (hget : tags[place]? = some tag) :
    (b.adopted tag block).Traced tags (Function.update owner b.nextId (some place))
        (b.nextId + 1) ∧
      ∀ k, (b.tree.remove block.id).times k + (b.adopted tag block).times k ≤ 1 := by
  have htree : b.tree.Traced tags (Function.update owner b.nextId (some place))
    (b.nextId + 1) := h.tree.add
  have hcopy : Owned tags (.html tag.name) (Foreign.attributesIn .html tag.attributes)
      (Function.update owner b.nextId (some place) b.nextId) := by
    rw [Function.update_self]
    exact ⟨tag, hget, .inl rfl, rfl⟩
  have hnext := h.times_nextId
  rcases b.adopted_cases tag hopened with
    ⟨_, hadopted⟩ | ⟨name, attributes, children, hfind, hadopted⟩
  · rw [hadopted]
    constructor
    · rw [Item.Traced, Item.every, Item.everyAll]
      exact ⟨⟨Nat.lt_succ_self _, hcopy⟩, trivial⟩
    -- A block that is not in the tree adds the copy only, whose number is new.
    · intro k
      have hremoved := Item.times_remove_le (k := k) block.id b.tree
      have honce := h.once k
      rw [Item.times, Item.timesAll]
      split
      · rename_i heq
        subst heq
        omega
      · omega
  · have hfound := Item.every_of_find? b.tree htree hfind
    rw [Item.every] at hfound
    rw [hadopted]
    constructor
    · rw [Item.Traced, Item.every, Item.everyAll_singleton, Item.every]
      exact ⟨hfound.1, ⟨Nat.lt_succ_self _, hcopy⟩, hfound.2⟩
    · intro k
      -- The block is not the root, so it was really taken out.
      have hroot : b.tree.hasId block.id = false := by
        have hroot := h.root
        cases htree : b.tree with
        | element id name attributes children =>
            rw [htree] at hroot
            have hid : id = 0 := beq_iff_eq.1 hroot
            exact beq_eq_false_iff_ne.2 (hid ▸ hinner.symm)
        | text content => rfl
        | comment content => rfl
      have hmoved := Item.times_remove_add_le (k := k) b.tree hroot hfind
      have honce := h.once k
      rw [Item.times] at hmoved
      rw [Item.times, Item.timesAll_singleton, Item.times]
      by_cases hnew : b.nextId = k
      · rw [if_pos hnew]
        rw [hnew] at hnext
        omega
      · rw [if_neg hnew]
        omega

/-- Passing by elements does not change which are open. -/
theorem passAll_stack (a : Adoption) (index : Nat) (nodes : List Opened) :
    (a.passAll index nodes).builder.stack = a.builder.stack := by
  induction nodes generalizing a index with
  | nil => rfl
  | cons node nodes ih =>
      have hpass : (a.pass index node).builder.stack = a.builder.stack := by
        unfold Adoption.pass
        dsimp only
        split
        · rfl
        split
        · rfl
        · rfl
      rw [Adoption.passAll, ih, hpass]

/-- The block is taken out of the tree, and its children go into the copy. -/
theorem Traced.adoption (h : b.Traced tags owner) {formatting block : Opened}
    (hentry : (Entry.element formatting tag).Traced tags owner) (hinner : block.id ≠ 0)
    (hopened : block.id < b.nextId) :
    ∃ owner', (b.adoption tag block).Traced tags owner'
      (.element ⟨b.nextId, .html tag.name⟩ tag) := by
  rcases hentry with ⟨hname, place, _, hget⟩
  rcases h.adopted hinner hopened hget with ⟨hitem, hapart⟩
  have hcopied := h.add (h.owners.copy hget hname)
  refine ⟨_, ⟨{ hcopied with tree := ?_, once := ?_, root := ?_ }, hitem, hapart, ?_, ?_⟩⟩
  · exact Item.every_remove block.id b.tree hcopied.tree
  · exact fun k => (Item.times_remove_le block.id b.tree).trans (h.once k)
  · exact (Item.hasId_remove 0 block.id b.tree).trans h.root
  · exact ⟨hname, place, Function.update_self .., hget⟩
  · exact fun o ho => absurd ho List.not_mem_nil

/-- An entry on the list leads to a number that was given. -/
theorem Traced.lt_of_entry {o : Opened} (h : b.Traced tags owner)
    (hentry : (Entry.element o tag).Traced tags owner) : o.id < b.nextId := by
  rcases hentry with ⟨_, place, hplace, _⟩
  by_contra hle
  rw [h.owners.fresh o.id (by omega)] at hplace
  exact absurd hplace (by simp)

/-- The block and its copies have the attributes of their start tags. -/
theorem Traced.adoptBlock (h : b.Traced tags owner) {formatting block : Opened}
    (hentry : (Entry.element formatting tag).Traced tags owner)
    {inner between outer : List Opened} (hinner : ∀ o ∈ inner ++ [block], o.id ≠ 0)
    (hsub : (inner ++ block :: outer).Sublist b.stack) :
    (b.adoptBlock formatting tag inner block between outer).Stems tags := by
  have hblock : block ∈ inner ++ block :: outer := by simp
  rcases h.adoption hentry (hinner block (by simp)) (h.opened block (hsub.subset hblock)) with
    ⟨owner', hready⟩
  rcases hready.passAll 0 between with ⟨owner', hpassed⟩
  have hstack := passAll_stack (b.adoption tag block) 0 between
  have hcopy := hpassed.builder.lt_of_entry hpassed.entry
  have hinserted := hpassed.builder.insertItem hpassed.item hpassed.apart
    (((b.adoption tag block).passAll 0 between).builder.placeFor
      (outer.head?.getD rootElement))
  have hkept (o : Opened) (ho : o ∈ inner ++ block :: outer) :
      o.id < ((b.adoption tag block).passAll 0 between).builder.nextId :=
    hpassed.builder.opened o (hstack ▸ hsub.subset ho)
  have hroot (o : Opened) (ho : o ∈ inner ++ ⟨b.nextId, .html tag.name⟩ :: block ::
      ((b.adoption tag block).passAll 0 between).copies.reverse) : o.id ≠ 0 := by
    -- The stack is what was inside, the copy, the block, and the copies of what was passed by.
    rcases List.mem_append.1 ho with ho | ho
    · exact hinner o (List.mem_append_left _ ho)
    rcases List.mem_cons.1 ho with rfl | ho
    · exact Nat.ne_of_gt h.nextId_pos
    rcases List.mem_cons.1 ho with rfl | ho
    · exact hinner _ (by simp)
    · exact (hpassed.copies o (List.mem_reverse.1 ho)).1
  refine ⟨owner', { hinserted with formatting := fun e he => ?_, inner := ?_, opened := ?_ }⟩
  · -- What is new on the list is the entry of the formatting element's copy.
    dsimp only [Builder.adoptBlock] at he
    split at he
    · rcases mem_insertEntryAfter (List.mem_of_mem_filter he) with rfl | he
      · exact hpassed.entry
      · exact hpassed.builder.formatting e he
    · rcases List.mem_map.1 he with ⟨e', he', rfl⟩
      split
      · exact hpassed.entry
      · exact hpassed.builder.formatting e' he'
  · -- All that is open inside the formatting element is not the root.
    have houter : outer.Sublist b.stack :=
      ((List.sublist_cons_self _ _).trans (List.sublist_append_right _ _)).trans hsub
    refine List.pairwise_append.2 ⟨?_, h.inner.sublist houter, fun o ho _ _ => hroot o ho⟩
    exact List.pairwise_of_forall_mem_list fun o ho _ _ => hroot o ho
  · intro o ho
    rcases List.mem_append.1 ho with ho | ho
    · rcases List.mem_append.1 ho with ho | ho
      · exact hkept o (List.mem_append_left _ ho)
      rcases List.mem_cons.1 ho with rfl | ho
      · exact hcopy
      rcases List.mem_cons.1 ho with rfl | ho
      · exact hkept _ hblock
      · exact (hpassed.copies o (List.mem_reverse.1 ho)).2
    · exact hkept o (List.mem_append_right _ (List.mem_cons_of_mem _ ho))

/-- The stack is divided at an element that is open. -/
theorem stack_eq_of_isOpen {id : Nat} (hopen : b.isOpen id = true) :
    ∃ o, b.stack.takeWhile (·.id != id) ++
      o :: b.stack.drop ((b.stack.takeWhile (·.id != id)).length + 1) = b.stack := by
  have hdivided : b.stack.takeWhile (·.id != id) ++ b.stack.dropWhile (·.id != id) = b.stack :=
    List.takeWhile_append_dropWhile
  have hdrop : b.stack.drop (b.stack.takeWhile (·.id != id)).length =
      b.stack.dropWhile (·.id != id) := by
    have hleft : (b.stack.takeWhile (·.id != id) ++ b.stack.dropWhile (·.id != id)).drop
        (b.stack.takeWhile (·.id != id)).length = b.stack.dropWhile (·.id != id) := List.drop_left
    rwa [hdivided] at hleft
  rw [← List.drop_drop, hdrop]
  cases hrest : b.stack.dropWhile (·.id != id) with
  | nil =>
      rcases List.any_eq_true.1 hopen with ⟨o, ho, hid⟩
      have hne := List.dropWhile_eq_nil_iff.1 hrest o ho
      rw [bne, hid] at hne
      exact Bool.noConfusion hne
  | cons o os => exact ⟨o, hrest ▸ hdivided⟩

/-- One round of adoption closes, drops or moves elements, and copies those that may be opened
again. -/
theorem Stems.adoptOnce (h : b.Stems tags) (name : String) :
    (b.adoptOnce name).1.Stems tags := by
  rcases h with ⟨owner, h⟩
  have hstems : b.Stems tags := ⟨owner, h⟩
  unfold Builder.adoptOnce
  split
  · exact hstems.closeOther name
  · rename_i o tag hfind
    split
    · exact hstems.dropFormatting _
    rename_i hopen
    split
    · exact hstems
    dsimp only
    split
    · exact (hstems.dropFormatting o.id).close (List.drop_sublist _ _)
    · rename_i block inner hinside
      rw [Bool.not_eq_true, Bool.not_eq_false'] at hopen
      rcases stack_eq_of_isOpen hopen with ⟨node, hstack⟩
      have hinner := List.reverse_eq_iff.1 hinside
      rw [List.reverse_cons] at hinner
      refine h.adoptBlock (h.of_findFormatting? hfind) (fun o' ho' => ?_) ?_
      · -- What is inside the formatting element has an element outside it.
        have hpairs := h.inner
        rw [← hstack] at hpairs
        rw [← hinner] at ho'
        exact (List.pairwise_append.1 hpairs).2.2 o' (List.mem_of_mem_take ho') node (by simp)
      · rw [List.append_cons, ← hinner]
        conv_rhs => rw [← hstack]
        exact (List.take_sublist _ _).append (List.sublist_cons_self _ _)

theorem Stems.adoptRounds (h : b.Stems tags) (rounds : Nat) (name : String) :
    (Builder.adoptRounds rounds name b).Stems tags := by
  induction rounds generalizing b with
  | zero => exact h
  | succ rounds ih =>
      have honce := h.adoptOnce name
      unfold Builder.adoptRounds
      split
      · rename_i c hc
        rw [hc] at honce
        exact ih honce
      · rename_i c hc
        rw [hc] at honce
        exact honce

/-- So do all rounds. -/
theorem Stems.adopt (h : b.Stems tags) (name : String) : (b.adopt name).Stems tags := by
  unfold Builder.adopt
  split
  · exact h.pop
  · exact h.adoptRounds 8 name

/-- A link that is still open is closed before the next one. -/
theorem Stems.endLink (h : b.Stems tags) : b.endLink.Stems tags := by
  unfold Builder.endLink
  dsimp only
  split
  · exact h
  · exact ((h.adopt "a").dropFormatting _).dropOpened _

end Adopting

end Builder

end Html

end SoleRoot

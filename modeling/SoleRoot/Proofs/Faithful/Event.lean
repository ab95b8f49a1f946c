import SoleRoot.Faithful.Printer
import SoleRoot.Faithful.Tree
import SoleRoot.Proofs.Faithful.Piece

/-!
# Events of a Tree

A tree as the row of things that happen when it is written.

An element starts and stops, or it is written as one self-closing tag, and
every other node is one event. `flatten` lists the events of a node in this
order. Each event is spelled by one token, so the text of a tree is the text of
the tokens of its events, and questions about writing a tree and reading it
again become questions about lists.

Nothing is lost on the way: `flattenAll_injective` says that a list of nodes is
determined by its events. The proof compares two lists of nodes whose events
are followed by something else. What follows must not go on with another node,
so it is empty or begins with the stop of the element around them.

`Token.event?` goes the other way and says which event a token of a text stands
for, if any. The two ways are not inverse to each other: a token may be spelled
in a way that a tree does not keep.

## Main definitions

* `Event`: What happens when a tree is written.
* `flatten`, `flattenAll`: The events of a node and of a list of nodes.
* `Event.token`: The token that spells an event.
* `spelledTag`: What a start tag says, as far as a tree keeps it.
* `Token.event?`, `Token.ownEvent?`: The event that a token stands for.

## Theorems

* `writeAll_eq`: The text of a tree is that of its events' tokens.
* `flattenAll_injective`: A tree is determined by its events.
* `tagContent_spelledTag`: What is written for a start tag that was read.
* `endSpace_raw`: The blank characters of an end tag are found in its text.
-/

namespace SoleRoot

namespace Faithful

/-- What happens when a tree is written. -/
inductive Event where
  | start (tag : Tag)
  | stop (name : String) (space : Option String)
  /-- An element that is written as one self-closing tag. -/
  | single (tag : Tag)
  | text (content : String)
  | comment (content : String)
  | cdata (content : String)
  deriving DecidableEq, Repr

/-- The characters between the brackets of a start tag. -/
def tagContent (t : Tag) : List Char :=
  t.name.toList ++ t.attributes.flatMap writeAttribute ++ spelling [] t.trailing

namespace Event

def isStop : Event → Bool
  | stop _ _ => true
  | _ => false

/-- The token that spells an event. -/
def token : Event → Token
  | start tag => .startTag (tagContent tag)
  | stop name space => .endTag (name.toList ++ spelling [] space)
  | single tag => .selfClosingTag (tagContent tag)
  | text content => .text content.toList
  | comment content => .comment content.toList
  | cdata content => .cdata content.toList

end Event

mutual

/-- The events of a node. The end tag belongs to the stop. -/
def flatten : Node → List Event
  | .element tag children =>
    if tag.selfClosing && children.isEmpty then [.single tag]
    else .start { tag with endTrailing := none } ::
      (flattenAll children ++ [.stop tag.name tag.endTrailing])
  | .text content => [.text content]
  | .comment content => [.comment content]
  | .cdata content => [.cdata content]

/-- The events of a list of nodes. -/
def flattenAll : List Node → List Event
  | [] => []
  | n :: ns => flatten n ++ flattenAll ns

end

/-- An empty element that closes itself is one event. -/
theorem flatten_single {tag : Tag} (h : tag.selfClosing = true) :
    flatten (.element tag []) = [.single tag] := by
  rw [flatten, h, List.isEmpty_nil, Bool.and_true, if_pos rfl]

/-- Every other element starts, has its children and stops. -/
theorem flatten_element {tag : Tag} {children : List Node}
    (h : (tag.selfClosing && children.isEmpty) = false) :
    flatten (.element tag children) = .start { tag with endTrailing := none } ::
      (flattenAll children ++ [.stop tag.name tag.endTrailing]) := by
  rw [flatten, h, if_neg Bool.false_ne_true]

@[simp] theorem flattenAll_nil : flattenAll [] = [] := by
  rw [flattenAll]

@[simp] theorem flattenAll_cons (n : Node) (ns : List Node) :
    flattenAll (n :: ns) = flatten n ++ flattenAll ns := by
  rw [flattenAll]

@[simp] theorem flattenAll_append (ns ms : List Node) :
    flattenAll (ns ++ ms) = flattenAll ns ++ flattenAll ms := by
  induction ns with
  | nil => rw [flattenAll_nil, List.nil_append, List.nil_append]
  | cons n ns ih => rw [List.cons_append, flattenAll_cons, flattenAll_cons, ih, List.append_assoc]

/-- The events of a node are among those of a list it is in. -/
theorem mem_flattenAll {n : Node} {ns : List Node} {e : Event} (hn : n ∈ ns)
    (he : e ∈ flatten n) : e ∈ flattenAll ns := by
  rcases List.append_of_mem hn with ⟨before, after, rfl⟩
  rw [flattenAll_append, flattenAll_cons]
  exact List.mem_append_right _ (List.mem_append_left _ he)

/-- Every event of a list is one of a node of the list. -/
theorem exists_mem_of_mem_flattenAll {ns : List Node} {e : Event} (he : e ∈ flattenAll ns) :
    ∃ n ∈ ns, e ∈ flatten n := by
  induction ns with
  | nil => simp at he
  | cons n ns ih =>
      rw [flattenAll_cons, List.mem_append] at he
      rcases he with he | he
      · exact ⟨n, List.mem_cons_self, he⟩
      · rcases ih he with ⟨m, hm, he⟩
        exact ⟨m, List.mem_cons_of_mem n hm, he⟩

theorem mem_flattenAll_filter {p : Node → Bool} {ns : List Node} {e : Event}
    (he : e ∈ flattenAll (ns.filter p)) : e ∈ flattenAll ns := by
  rcases exists_mem_of_mem_flattenAll he with ⟨n, hn, he⟩
  exact mem_flattenAll (List.mem_of_mem_filter hn) he

theorem startTag_eq (t : Tag) : startTag t = '<' :: tagContent t := by
  simp only [startTag, tagContent, List.cons_append]

/-- A start tag does not show what the end tag records. -/
theorem tagContent_endTrailing (t : Tag) (space : Option String) :
    tagContent { t with endTrailing := space } = tagContent t := rfl

mutual

/-- The text of a node is that of its events' tokens. -/
theorem write_eq (n : Node) : write n = (flatten n).flatMap (Token.raw ∘ Event.token) := by
  match n with
  | .element tag children =>
      by_cases h : (tag.selfClosing && children.isEmpty) = true
      · rw [write, if_pos h, flatten, if_pos h, startTag_eq]
        simp only [List.flatMap_cons, List.flatMap_nil, List.append_nil, Function.comp_apply,
          Event.token, Token.raw]
      · -- The start leaves out what the end tag records, and it does not show.
        rw [write, if_neg h, flatten, if_neg h, startTag_eq, writeAll_eq children]
        simp only [List.flatMap_cons, List.flatMap_append, List.flatMap_nil, List.append_nil,
          Function.comp_apply, Event.token, Token.raw, tagContent_endTrailing, endTag,
          List.cons_append, List.append_assoc, List.nil_append]
  | .text content => simp [write, flatten, Event.token, Token.raw]
  | .comment content => simp [write, flatten, Event.token, Token.raw, writeComment]
  | .cdata content => simp [write, flatten, Event.token, Token.raw, writeCdata]

/-- The text of a tree is that of its events' tokens. -/
theorem writeAll_eq (ns : List Node) :
    writeAll ns = (flattenAll ns).flatMap (Token.raw ∘ Event.token) := by
  match ns with
  | [] => rw [writeAll, flattenAll, List.flatMap_nil]
  | n :: ns =>
      rw [writeAll, flattenAll, List.flatMap_append, write_eq n, writeAll_eq ns]

end

/-- A node does not begin with the stop of another. -/
theorem exists_head_flatten (n : Node) :
    ∃ e es, flatten n = e :: es ∧ e.isStop = false := by
  cases n with
  | element tag children =>
      by_cases h : (tag.selfClosing && children.isEmpty) = true
      · exact ⟨.single tag, [], by rw [flatten, if_pos h], rfl⟩
      · exact ⟨_, _, by rw [flatten, if_neg h], rfl⟩
  | text content => exact ⟨.text content, [], by rw [flatten], rfl⟩
  | comment content => exact ⟨.comment content, [], by rw [flatten], rfl⟩
  | cdata content => exact ⟨.cdata content, [], by rw [flatten], rfl⟩

/-- What may follow the events of a complete list of nodes: the stop of the
    element around them, or nothing. -/
def Ends (es : List Event) : Prop :=
  ∀ e ∈ es.head?, e.isStop = true

/-- What may follow a complete list of nodes is not another node. -/
theorem not_ends_flatten (n : Node) (es : List Event) : ¬ Ends (flatten n ++ es) := by
  intro h
  rcases exists_head_flatten n with ⟨e, rest, hflatten, hstop⟩
  rw [hflatten] at h
  exact absurd (h e rfl) (by rw [hstop]; exact Bool.false_ne_true)

mutual

/-- A node can be told from what follows its events. -/
theorem flatten_append_inj {n m : Node} {x y : List Event}
    (h : flatten n ++ x = flatten m ++ y) : n = m ∧ x = y := by
  match n, m with
  | .element tag children, .element tag' children' =>
      -- Each element is one event, or it starts, has its children and stops.
      by_cases hs : (tag.selfClosing && children.isEmpty) = true
      · by_cases hs' : (tag'.selfClosing && children'.isEmpty) = true
        · have hc := List.isEmpty_iff.1 (Bool.and_eq_true _ _ ▸ hs).2
          have hc' := List.isEmpty_iff.1 (Bool.and_eq_true _ _ ▸ hs').2
          rw [flatten, flatten, if_pos hs, if_pos hs'] at h
          simp only [List.cons_append, List.nil_append, List.cons.injEq, Event.single.injEq] at h
          exact ⟨by rw [h.1, hc, hc'], h.2⟩
        · rw [flatten, flatten, if_pos hs, if_neg hs'] at h
          -- One of them is a single event and the other one is not.
          simp at h
      · by_cases hs' : (tag'.selfClosing && children'.isEmpty) = true
        · rw [flatten, flatten, if_neg hs, if_pos hs'] at h
          simp at h
        · rw [flatten, flatten, if_neg hs, if_neg hs'] at h
          simp only [List.cons_append, List.append_assoc, List.nil_append, List.cons.injEq,
            Event.start.injEq] at h
          rcases h with ⟨htag, hrest⟩
          -- What follows the children begins with the stop on both sides.
          rcases flattenAll_append_inj (by simp [Ends, Event.isStop])
            (by simp [Ends, Event.isStop]) hrest with ⟨hchildren, hstop⟩
          simp only [List.cons.injEq, Event.stop.injEq] at hstop
          rcases hstop with ⟨⟨_, hspace⟩, hxy⟩
          -- The start has all of the tag but what the end tag records.
          cases tag
          cases tag'
          simp only [Tag.mk.injEq] at htag hspace
          exact ⟨by simp_all, hxy⟩
  | .text _, .text _ | .comment _, .comment _ | .cdata _, .cdata _ =>
      simp only [flatten, List.cons_append, List.nil_append, List.cons.injEq, Event.text.injEq,
        Event.comment.injEq, Event.cdata.injEq] at h
      exact ⟨by rw [h.1], h.2⟩
  | .element tag children, .text _ | .element tag children, .comment _
  | .element tag children, .cdata _ =>
      by_cases hs : (tag.selfClosing && children.isEmpty) = true
      · rw [flatten, if_pos hs] at h
        simp [flatten] at h
      · rw [flatten, if_neg hs] at h
        simp [flatten] at h
  | .text _, .element tag children | .comment _, .element tag children
  | .cdata _, .element tag children =>
      by_cases hs : (tag.selfClosing && children.isEmpty) = true
      · rw [flatten, flatten, if_pos hs] at h
        simp at h
      · rw [flatten, flatten, if_neg hs] at h
        simp at h
  | .text _, .comment _ | .text _, .cdata _ | .comment _, .text _ | .comment _, .cdata _
  | .cdata _, .text _ | .cdata _, .comment _ => simp [flatten] at h

/-- A complete list of nodes can be told from what follows its events. -/
theorem flattenAll_append_inj {ns ms : List Node} {x y : List Event} (hx : Ends x) (hy : Ends y)
    (h : flattenAll ns ++ x = flattenAll ms ++ y) : ns = ms ∧ x = y := by
  match ns, ms with
  | [], [] => exact ⟨rfl, by simpa using h⟩
  | [], m :: ms =>
      rw [flattenAll_nil, List.nil_append, flattenAll_cons, List.append_assoc] at h
      -- The second list goes on where the first one has come to its end.
      exact absurd (h ▸ hx) (not_ends_flatten m _)
  | n :: ns, [] =>
      rw [flattenAll_nil, List.nil_append, flattenAll_cons, List.append_assoc] at h
      exact absurd (h ▸ hy) (not_ends_flatten n _)
  | n :: ns, m :: ms =>
      rw [flattenAll_cons, flattenAll_cons, List.append_assoc, List.append_assoc] at h
      rcases flatten_append_inj h with ⟨hn, hrest⟩
      rcases flattenAll_append_inj hx hy hrest with ⟨hns, hxy⟩
      exact ⟨by rw [hn, hns], hxy⟩

end

/-- A tree is determined by its events. -/
theorem flattenAll_injective {ns ms : List Node} (h : flattenAll ns = flattenAll ms) : ns = ms :=
  (flattenAll_append_inj (x := []) (y := []) (fun _ h => by simp at h) (fun _ h => by simp at h)
    (by rw [h])).1

/-- What stands behind the name in a start tag. -/
def tagRest (content : List Char) : List Char :=
  content.drop (tagName content).length

/-- The name of a tag goes up to the first white space. -/
theorem tagRest_eq (content : List Char) :
    tagRest content = content.dropWhile (!Text.isXmlSpace ·) := by
  have h := List.takeWhile_append_dropWhile (p := (!Text.isXmlSpace ·)) (l := content)
  calc tagRest content
      = (tagName content ++ content.dropWhile (!Text.isXmlSpace ·)).drop
          (tagName content).length := by rw [tagRest, tagName, h]
    _ = content.dropWhile (!Text.isXmlSpace ·) := List.drop_left

theorem tagName_append_tagRest (content : List Char) :
    tagName content ++ tagRest content = content := by
  rw [tagRest_eq, tagName, List.takeWhile_append_dropWhile]

/-- A name ends where white space begins. -/
theorem tagName_append {name rest : List Char} (hname : ∀ c ∈ name, Text.isXmlSpace c = false)
    (hrest : ∀ c ∈ rest.head?, Text.isXmlSpace c = true) : tagName (name ++ rest) = name :=
  Text.takeWhile_append_stop (fun c hc => by rw [hname c hc, Bool.not_false])
    fun c hc => by rw [hrest c hc, Bool.not_true]

theorem tagRest_append {name rest : List Char} (hname : ∀ c ∈ name, Text.isXmlSpace c = false)
    (hrest : ∀ c ∈ rest.head?, Text.isXmlSpace c = true) : tagRest (name ++ rest) = rest := by
  rw [tagRest, tagName_append hname hrest, List.drop_left]

/-- What a start tag says, as far as a tree keeps it. -/
def spelledTag (selfClosing : Bool) (content : List Char) : Tag where
  name := String.ofList (tagName content)
  attributes := (scan (tagRest content)).1
  selfClosing := selfClosing
  trailing := (scan (tagRest content)).2

/-- A start tag is accepted if valid clauses stand behind its name, and says what they spell. -/
theorem readTag_eq_ok_iff {selfClosing : Bool} {content : List Char} {tag : Tag} :
    readTag selfClosing content = .ok tag ↔
      tag = spelledTag selfClosing content ∧ ∃ s : Clauses, tagRest content = s.text ∧ s.Valid := by
  rw [← exists_declarations_iff (Text.byteSize (tagName content))]
  -- The declarations are asked for and thrown away.
  cases hds : declarations (Text.byteSize (tagName content)) (tagRest content) with
  | error fault =>
      have hread : readTag selfClosing content = .error fault := by
        rw [tagRest] at hds
        simp only [readTag, hds]
      simp [hread]
  | ok ds =>
      have hread : readTag selfClosing content = .ok (spelledTag selfClosing content) := by
        rw [tagRest] at hds
        simp only [readTag, hds]
        rfl
      simp [hread, eq_comm]

/-- What is written for a start tag that was read. -/
theorem tagContent_spelledTag (selfClosing : Bool) (content : List Char) :
    tagContent (spelledTag selfClosing content) = tagName content ++ respell (tagRest content) := by
  simp only [tagContent, spelledTag, respell, String.toList_ofList, List.append_assoc]

/-- The blank characters of an end tag are found in its text. -/
theorem endSpace_raw (content : List Char) :
    endSpace (some (Token.endTag content).raw) =
      unusual? [] (Text.trailing Text.isBlank content) := by
  have hstrip : Text.strip? ['<', '/'] (Token.endTag content).raw = some (content ++ ['>']) :=
    Text.strip?_eq_some_iff.2 rfl
  simp only [endSpace, Option.bind_eq_bind, Option.bind_some, hstrip, List.getLast?_append,
    List.getLast?_singleton, Option.some_or, if_true, List.dropLast_concat]

namespace Token

/-- Whether a token leaves something in the tree. -/
def isKept : Token → Bool
  | doctype _ | instruction _ => false
  | _ => true

/-- The event that a token stands for. `found` is the text of the source at its
    place. -/
def event? (found : Option (List Char)) : Token → Option Event
  | text content => some (.text (String.ofList content))
  | startTag content => some (.start (spelledTag false content))
  | selfClosingTag content => some (.single (spelledTag true content))
  | endTag content => some (.stop (String.ofList (endName content)) (endSpace found))
  | comment content => some (.comment (String.ofList content))
  | cdata content => some (.cdata (String.ofList content))
  | doctype _ | instruction _ => none

/-- A token stands for an event exactly if it leaves something in the tree. -/
theorem event?_eq_none_iff {found : Option (List Char)} {t : Token} :
    t.event? found = none ↔ t.isKept = false := by
  cases t <;> simp [event?, isKept]

/-- The event that a token stands for, found at its own place. -/
def ownEvent? (t : Token) : Option Event :=
  t.event? (some t.raw)

theorem ownEvent?_eq_none_iff {t : Token} : t.ownEvent? = none ↔ t.isKept = false :=
  event?_eq_none_iff

end Token

end Faithful

end SoleRoot

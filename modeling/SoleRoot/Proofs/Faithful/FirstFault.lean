import SoleRoot.Proofs.Faithful.Blame
import SoleRoot.Proofs.Faithful.Cutting

/-!
# The First Fault

Which construct of a text is blamed, and where.

A text falls into constructs: its tokens and, if the last one does not end, what
is left of the text as one more. The beginning of a text that is made up of its
first constructs has just these as its own, so the readings of all such
beginnings are the beginnings of one run. The run stops at the first construct
that is at fault, and no later one is looked at. Nothing that is read before
depends on what comes after, and the place of the fault is the place of the
construct.

A fault of another kind is an element that is still open when the text ends. It
is looked for last, and it goes away if the text goes on. `Nests` is the
invariant that leads to its place: behind each open element stand tags that
match, and the start of the element before it.

## Main definitions

* `Construct`, `constructs`: The constructs of a text.
* `upTo`: The text of the first constructs.
* `Growth.consume`: One construct more.
* `Offends`: A text is refused, and not for an element that is open at its end.
* `Nests`: Where the open elements have started.

## Theorems

* `text_constructs`: The constructs of a text make up the text.
* `constructs_upTo`: The first constructs are those of their own text.
* `Nests.run`: Open elements nest along a run.
* `exists_of_not_offends`: A text in which no construct is at fault.
* `parse_upTo`: The first construct that is at fault is the one that is blamed.
-/

namespace SoleRoot

namespace Faithful

/-- A construct of a text: a token, or the last construct if it does not end. -/
inductive Construct where
  | whole (t : Token)
  | broken (failure : Unterminated) (content : List Char)
  deriving DecidableEq, Repr

namespace Construct

/-- The text of a construct. -/
def text : Construct → List Char
  | whole t => t.raw
  | broken _ content => content

/-- What stands in a construct before the place where a fault of it is located:
    nothing, but for a document type, whose fault is the lack of a name before
    the closing bracket. -/
def lead : Construct → List Char
  | whole (.doctype content) => '<' :: '!' :: content
  | _ => []

/-- The construct that is left when the tokens of a text have been cut off. -/
def left (failure : Option Unterminated) (content : List Char) : List Construct :=
  failure.toList.map (broken · content)

theorem exists_lead_append (c : Construct) : ∃ rest, c.text = c.lead ++ rest := by
  unfold lead
  split
  · exact ⟨['>'], rfl⟩
  · exact ⟨c.text, rfl⟩

end Construct

/-- The constructs of a text. -/
def constructs (cs : List Char) : List Construct :=
  (cut cs).tokens.map .whole ++
    Construct.left (cut cs).failure (cs.drop ((cut cs).tokens.flatMap Token.raw).length)

/-- The text of the first constructs of a text. -/
def upTo (cs : List Char) (count : Nat) : List Char :=
  ((constructs cs).take count).flatMap Construct.text

theorem flatMap_text_whole (ts : List Token) :
    (ts.map Construct.whole).flatMap Construct.text = ts.flatMap Token.raw := by
  rw [List.flatMap_map]
  rfl

theorem constructs_of_terminated {cs : List Char} (h : (cut cs).failure = none) :
    constructs cs = (cut cs).tokens.map .whole := by
  rw [constructs, h]
  exact List.append_nil _

/-- The constructs of a text make up the text. -/
theorem text_constructs (cs : List Char) : (constructs cs).flatMap Construct.text = cs := by
  rcases exists_raw_cut cs with ⟨rest, hrest⟩
  rw [constructs, List.flatMap_append, flatMap_text_whole]
  cases hfailure : (cut cs).failure with
  | none =>
      rw [raw_cut hfailure]
      exact List.append_nil cs
  | some failure =>
      -- The last construct is what the tokens have left of the text.
      have hdrop : cs.drop ((cut cs).tokens.flatMap Token.raw).length = rest :=
        (congrArg (List.drop _) hrest).trans List.drop_left
      rw [hdrop]
      simpa [Construct.left, Construct.text] using hrest.symm

/-- The first constructs of a text are those of their own text. -/
theorem constructs_upTo (cs : List Char) (count : Nat) :
    constructs (upTo cs count) = (constructs cs).take count := by
  by_cases hcount : count ≤ (cut cs).tokens.length
  · -- Only tokens are taken, and they are found again.
    have htake : (constructs cs).take count = ((cut cs).tokens.take count).map .whole := by
      rw [constructs, List.take_append_of_le_length (by rwa [List.length_map]), List.map_take]
    have hcut : cut (upTo cs count) = ⟨(cut cs).tokens.take count, none⟩ := by
      rw [upTo, htake, flatMap_text_whole]
      exact cut_flatMap_raw (fun t ht => whole_of_mem_cut t (List.mem_of_mem_take ht))
        ((separate_cut cs).take count)
    rw [constructs_of_terminated (by rw [hcut]), hcut, htake]
  · -- The construct that does not end is the last one, so all are taken.
    have hlength : (constructs cs).length ≤ count := by
      rw [constructs, List.length_append, List.length_map, Construct.left, List.length_map]
      have hone := Option.length_toList_le (o := (cut cs).failure)
      omega
    rw [upTo, List.take_of_length_le hlength, text_constructs]

namespace Growth

/-- One construct more. -/
def consume (source : List Char) (g : Growth) : Construct → Except Fault Growth
  | .whole t => g.step source t
  | .broken failure _ => .error ⟨.unterminated failure, g.offset⟩

section Consume

variable {source source' done : List Char} {g g' : Growth} {c : Construct} {f : Fault}

theorem consume_congr (h : g.outline = g'.outline) :
    (g.consume source c).map outline = (g'.consume source' c).map outline := by
  cases c with
  | whole t => exact step_congr h
  | broken failure content =>
      have hoffset : g.offset = g'.offset := congrArg Prod.fst h
      simp only [consume, Except.map, hoffset]

theorem Placed.consume (hplaced : g.Placed done) (h : g.consume source c = .ok g') :
    g'.Placed (done ++ c.text) := by
  cases c with
  | whole t => exact hplaced.step h
  | broken failure content => simp [Growth.consume] at h

/-- What is wrong with a token is not that an element is open. -/
theorem defect_of_accept_error {t : Token} (h : g.accept source t = .error f) (name : String) :
    f.defect ≠ .unclosed name := by
  cases t with
  | text content | selfClosingTag content | startTag content | doctype content =>
      simp only [accept] at h
      split at h
      · rw [← Except.error.inj h]
        simp
      · simp at h
  | comment content | cdata content | instruction content => simp [accept] at h
  | endTag content =>
      simp only [accept] at h
      split at h
      · rw [← Except.error.inj h]
        simp
      · split at h
        · simp at h
        · rw [← Except.error.inj h]
          simp

theorem defect_of_consume_error (h : g.consume source c = .error f) (name : String) :
    f.defect ≠ .unclosed name := by
  cases c with
  | whole t => exact defect_of_accept_error (accept_of_step_error h) name
  | broken failure content =>
      rw [← Except.error.inj h]
      simp

/-- A fault of a construct is located in it, behind its lead. -/
theorem Placed.offset_of_consume_error (hplaced : g.Placed done)
    (h : g.consume source c = .error f) :
    f.offset = Text.byteSize (done ++ c.lead) := by
  cases c with
  | broken failure content =>
      rw [← Except.error.inj h, Construct.lead, List.append_nil, ← hplaced.offset]
      simp
  | whole t =>
      have haccept := accept_of_step_error h
      cases t with
      | doctype content =>
          simp only [accept] at haccept
          split at haccept
          · -- The bracket at the end is one byte long.
            have hbracket : Char.utf8Size '>' = 1 := by decide
            rw [← Except.error.inj haccept]
            simp only [hplaced.offset, Token.raw, Construct.lead, Text.byteSize_append,
              Text.byteSize_cons, Text.byteSize_nil, hbracket, List.cons_append]
            omega
          · simp at haccept
      | _ =>
          rw [Construct.lead, List.append_nil, ← hplaced.offset]
          · rcases offset_of_accept_error haccept with hoffset | ⟨content, htoken, _⟩
            · exact hoffset
            · simp at htoken
          · simp

end Consume

section Run

variable {source source' done : List Char} {cs : List Construct} {g g' : Growth} {f : Fault}

theorem consumes_congr (h : g.outline = g'.outline) :
    (cs.foldlM (consume source) g).map outline =
      (cs.foldlM (consume source') g').map outline := by
  induction cs generalizing g g' with
  | nil => exact congrArg Except.ok h
  | cons c cs ih =>
      rw [List.foldlM_cons, List.foldlM_cons]
      exact map_bind_congr (consume_congr h) fun _ _ hnext => ih hnext

theorem Placed.consumes (hplaced : g.Placed done)
    (h : cs.foldlM (Growth.consume source) g = .ok g') :
    g'.Placed (done ++ cs.flatMap Construct.text) := by
  induction cs generalizing g done with
  | nil =>
      rcases Except.ok.inj h with rfl
      rwa [List.flatMap_nil, List.append_nil]
  | cons c cs ih =>
      rw [List.foldlM_cons] at h
      rcases bind_eq_ok_iff.1 h with ⟨next, hstep, hrun⟩
      rw [List.flatMap_cons, ← List.append_assoc]
      exact ih (hplaced.consume hstep) hrun

end Run

end Growth

/-- A text is read construct by construct. -/
theorem read_eq_foldlM (source : List Char) :
    read source = (constructs (Text.dropMark source)).foldlM (Growth.consume source) {} >>=
      fun g => g.finish none := by
  rw [read, constructs, List.foldlM_append, List.foldlM_map]
  change _ = ((cut (Text.dropMark source)).tokens.foldlM (Growth.step source) {} >>= _) >>= _
  rw [bind_assoc]
  congr 1
  funext g
  -- At the end of a text what does not end is looked at before the open elements.
  cases (cut (Text.dropMark source)).failure with
  | none => rfl
  | some failure => cases g.opened <;> rfl

theorem AttributeFault.prefix_message (fault : AttributeFault) :
    ['i', 'n', 'v'] <+: fault.message.toList ∨ ['u', 'n', 'e'] <+: fault.message.toList := by
  cases fault with
  -- Only this message does not begin as the others do.
  | angleBracket key =>
      unfold AttributeFault.message
      simp only [String.toList_append, List.append_assoc]
      exact .inr (List.prefix_append_of_prefix (by decide +kernel))
  | _ =>
      unfold AttributeFault.message
      simp only [String.toList_append, List.append_assoc]
      exact .inl (List.prefix_append_of_prefix (by decide +kernel))

namespace Defect

theorem exists_prefix_message {d : Defect} (h : ∀ name, d ≠ .unclosed name) :
    ∃ p ∈ [['s', 'y', 'n'], ['i', 'l', 'l'], ['i', 'n', 'v'], ['u', 'n', 'e']],
      p <+: d.message.toList := by
  cases d with
  | unclosed name => exact absurd rfl (h name)
  | unterminated failure => exact ⟨['s', 'y', 'n'], by simp, by cases failure <;> decide +kernel⟩
  | namelessDoctype => exact ⟨['i', 'l', 'l'], by simp, by decide +kernel⟩
  | strayEnd name | mismatchedEnd expected found =>
      refine ⟨['i', 'l', 'l'], by simp, ?_⟩
      unfold message
      simp only [String.toList_append, List.append_assoc]
      exact List.prefix_append_of_prefix (by decide +kernel)
  | invalidText fault =>
      refine ⟨['i', 'n', 'v'], by simp, ?_⟩
      unfold message
      rw [String.toList_append]
      exact List.prefix_append_of_prefix (by decide +kernel)
  -- A fault of attributes is told in the words of the fault.
  | invalidAttribute fault =>
      rcases fault.prefix_message with hprefix | hprefix
      · exact ⟨_, by simp, hprefix⟩
      · exact ⟨_, by simp, hprefix⟩

/-- Only of an element that is open is it said that it is. -/
theorem message_ne {d : Defect} (h : ∀ name, d ≠ .unclosed name) (name : String) :
    d.message ≠ s!"unclosed tag <{name}>" := by
  intro hmessage
  rcases exists_prefix_message h with ⟨p, hp, hprefix⟩
  have hunclosed : ['u', 'n', 'c'] <+: d.message.toList := by
    rw [hmessage]
    simp only [String.toList_append, List.append_assoc]
    exact List.prefix_append_of_prefix (by decide +kernel)
  -- The four beginnings are as long as this one, and none of them is the same.
  have hlength : ∀ q ∈ [['s', 'y', 'n'], ['i', 'l', 'l'], ['i', 'n', 'v'], ['u', 'n', 'e']],
      q.length = 3 ∧ q ≠ ['u', 'n', 'c'] := by decide
  rcases hlength p hp with ⟨hthree, hne⟩
  have hsame := List.prefix_of_prefix_length_le hprefix hunclosed (Nat.le_of_eq hthree)
  exact hne (hsame.eq_of_length hthree)

end Defect

/-- Whether a text is refused, and not because an element is open at its end. -/
def Offends (cs : List Char) : Prop :=
  ∃ m, Document.parse .faithful (String.ofList cs) = .error m ∧
    ∀ name : String, m.detail ≠ s!"unclosed tag <{name}>"

section Reading

variable {cs : List Char}

/-- What stands in the source at the end tags is not why a text is refused. -/
theorem read_eq_error_iff (hmark : cs.head? ≠ some '\uFEFF') (source : List Char) {f : Fault} :
    read cs = .error f ↔ (constructs cs).foldlM (Growth.consume source) {} = .error f ∨
      ∃ g, (constructs cs).foldlM (Growth.consume source) {} = .ok g ∧
        g.finish none = .error f := by
  -- The two trees may differ in the white space of end tags, so they are left out.
  have hview : (read cs).map (fun _ => ()) = ((constructs cs).foldlM (Growth.consume source) {} >>=
      fun g => g.finish none).map fun _ => () := by
    rw [read_eq_foldlM, Text.dropMark_of_unmarked hmark]
    exact map_bind_congr (Growth.consumes_congr rfl) fun _ _ hview => Growth.finish_congr hview _
  have herror : ∀ x : Except Fault (List Node),
      x = .error f ↔ x.map (fun _ => ()) = .error f := by
    intro x
    cases x <;> simp [Except.map]
  rw [← bind_eq_error_iff, herror, hview, ← herror]

theorem Growth.finish_none_eq_error_iff {g : Growth} {f : Fault} :
    g.finish none = .error f ↔
      ∃ e opened, g.opened = e :: opened ∧ f = ⟨.unclosed e.tag.name, e.offset⟩ := by
  cases hopened : g.opened with
  | nil => simp [Growth.finish, hopened]
  | cons e opened => simp [Growth.finish, hopened, eq_comm]

/-- A run that fails does so at one of its constructs. -/
theorem Growth.exists_of_consumes_error {source : List Char} {cs : List Construct} {g : Growth}
    {f : Fault} (h : cs.foldlM (consume source) g = .error f) :
    ∃ g' c, consume source g' c = .error f := by
  induction cs generalizing g with
  | nil => simp [pure, Except.pure] at h
  | cons c cs ih =>
      rw [List.foldlM_cons] at h
      rcases bind_eq_error_iff.1 h with hfirst | ⟨next, _, hrest⟩
      · exact ⟨g, c, hfirst⟩
      · exact ih hrest

/-- A text offends exactly if one of its constructs is at fault. -/
theorem offends_iff (hmark : cs.head? ≠ some '\uFEFF') (source : List Char) :
    Offends cs ↔ ∃ f, (constructs cs).foldlM (Growth.consume source) {} = .error f := by
  constructor
  · rintro ⟨m, hparse, hname⟩
    rcases parse_eq_error_iff_read.1 hparse with ⟨f, hread, rfl⟩
    rw [String.toList_ofList] at hread
    -- An element that is left open would be named in the message.
    rcases (read_eq_error_iff hmark source).1 hread with hrun | ⟨g, _, hfinish⟩
    · exact ⟨f, hrun⟩
    · rcases Growth.finish_none_eq_error_iff.1 hfinish with ⟨e, opened, _, rfl⟩
      exact absurd rfl (hname e.tag.name)
  · rintro ⟨f, hrun⟩
    rcases Growth.exists_of_consumes_error hrun with ⟨g, c, hconsume⟩
    refine ⟨_, parse_eq_error_iff_read.2 ⟨f, ?_, rfl⟩, ?_⟩
    · rw [String.toList_ofList]
      exact (read_eq_error_iff hmark source).2 (.inl hrun)
    · exact Defect.message_ne (Growth.defect_of_consume_error hconsume)

end Reading

/-- Where the open elements have started: behind the start of each stand tags
    that match, and before it are the starts of the others. -/
def Nests : List Token → List OpenElement → Prop
  | ts, [] => Balanced ts
  | ts, e :: opened => ∃ before content inside,
    ts = before ++ .startTag content :: inside ∧ Balanced inside ∧
      e.tag.name = String.ofList (tagName content) ∧
      e.offset = Text.byteSize (before.flatMap Token.raw) ∧ Nests before opened

/-- More elements that are open before do not matter. -/
theorem walk_append {t : Token} {names names' : List String} (h : t.walk names = some names')
    (outer : List String) : t.walk (names ++ outer) = some (names' ++ outer) := by
  cases t with
  | endTag content =>
      cases names with
      | nil => simp [Token.walk] at h
      | cons name names =>
          simp only [Token.walk] at h
          -- Only the innermost of them is looked at.
          split at h
          · rename_i hname
            rcases Option.some.inj h with rfl
            exact if_pos hname
          · simp at h
  | _ =>
      rcases Option.some.inj h with rfl
      rfl

theorem walks_append {ts : List Token} {names names' : List String}
    (h : ts.foldlM Token.walk names = some names') (outer : List String) :
    ts.foldlM Token.walk (names ++ outer) = some (names' ++ outer) := by
  induction ts generalizing names with
  | nil =>
      rcases Option.some.inj h with rfl
      rfl
  | cons t ts ih =>
      rw [List.foldlM_cons] at h ⊢
      rcases Option.bind_eq_some_iff.1 h with ⟨between, hfirst, hrest⟩
      rw [walk_append hfirst]
      exact ih hrest

theorem Balanced.walks {ts : List Token} (h : Balanced ts) (outer : List String) :
    ts.foldlM Token.walk outer = some outer :=
  walks_append h outer

theorem Balanced.append {ts us : List Token} (hts : Balanced ts) (hus : Balanced us) :
    Balanced (ts ++ us) := by
  rw [Balanced, List.foldlM_append, hts]
  exact hus

theorem Balanced.element {content stop : List Char} {inside : List Token} (h : Balanced inside)
    (hname : tagName content = endName stop) :
    Balanced (.startTag content :: inside ++ [.endTag stop]) := by
  change (inside ++ [Token.endTag stop]).foldlM Token.walk [String.ofList (tagName content)] =
    some []
  rw [List.foldlM_append, h.walks]
  simp [Token.walk, hname]

/-- Tags that match close what they open. -/
theorem Nests.append {ts us : List Token} {opened : List OpenElement} (h : Nests ts opened)
    (hus : Balanced us) : Nests (ts ++ us) opened := by
  cases opened with
  | nil => exact Balanced.append h hus
  | cons e opened =>
      rcases h with ⟨before, content, inside, rfl, hinside, hname, hoffset, hnests⟩
      exact ⟨before, content, inside ++ us, by simp, hinside.append hus, hname, hoffset, hnests⟩

section Nests

variable {source : List Char} {done ts : List Token} {g g' : Growth} {t : Token}

/-- One token more: it opens an element, closes the innermost one, or leaves all
    as they are. -/
theorem Nests.accept (hoffset : g.offset = Text.byteSize (done.flatMap Token.raw))
    (h : Nests done g.opened) (haccept : g.accept source t = .ok g') :
    Nests (done ++ [t]) g'.opened := by
  cases t with
  | text content | selfClosingTag content | doctype content =>
      simp only [Growth.accept] at haccept
      split at haccept
      · simp at haccept
      · rcases Except.ok.inj haccept with rfl
        exact h.append rfl
  | comment content | cdata content | instruction content =>
      rcases Except.ok.inj haccept with rfl
      exact h.append rfl
  | startTag content =>
      simp only [Growth.accept] at haccept
      split at haccept
      · simp at haccept
      · rename_i tag htag
        rcases Except.ok.inj haccept with rfl
        rcases readTag_eq_ok_iff.1 htag with ⟨rfl, _⟩
        exact ⟨done, content, [], rfl, rfl, rfl, hoffset, h⟩
  | endTag content =>
      simp only [Growth.accept] at haccept
      split at haccept
      · simp at haccept
      · rename_i e opened hopened
        split at haccept
        · rename_i hname
          rcases Except.ok.inj haccept with rfl
          rw [hopened] at h
          rcases h with ⟨before, start, inside, rfl, hinside, hstart, _, hnests⟩
          have hsame : tagName start = endName content :=
            String.ofList_injective (hstart.symm.trans hname)
          -- The element is closed, so with its tags it stands inside the one before.
          rw [List.append_assoc]
          exact hnests.append (hinside.element hsame)
        · simp at haccept

/-- Open elements nest along a run. -/
theorem Nests.run (hplaced : g.Placed (done.flatMap Token.raw)) (h : Nests done g.opened)
    (hrun : ts.foldlM (Growth.step source) g = .ok g') : Nests (done ++ ts) g'.opened := by
  induction ts generalizing g done with
  | nil =>
      rcases Except.ok.inj hrun with rfl
      rwa [List.append_nil]
  | cons t ts ih =>
      rw [List.foldlM_cons] at hrun
      rcases bind_eq_ok_iff.1 hrun with ⟨next, hstep, hrest⟩
      rw [List.append_cons]
      refine ih ?_ ?_ hrest
      · rw [List.flatMap_append, List.flatMap_singleton]
        exact hplaced.step hstep
      · rcases Growth.step_eq_ok_iff.1 hstep with ⟨a, haccept, rfl⟩
        have hnests := h.accept hplaced.offset haccept
        exact hnests

end Nests

theorem exists_take_append {j k : Nat} (h : k ≤ j) (cs : List Char) :
    ∃ more, (constructs cs).take j = (constructs cs).take k ++ more := by
  -- What is more is what the longer beginning has behind the shorter one.
  refine ⟨((constructs cs).take j).drop k, ?_⟩
  have hsplit := List.take_append_drop k ((constructs cs).take j)
  rw [List.take_take, Nat.min_eq_left h] at hsplit
  exact hsplit.symm

theorem unmarked_upTo {cs : List Char} (hmark : cs.head? ≠ some '\uFEFF') (count : Nat) :
    (upTo cs count).head? ≠ some '\uFEFF' := by
  have hsplit : cs = upTo cs count ++ ((constructs cs).drop count).flatMap Construct.text := by
    rw [upTo, ← List.flatMap_append, List.take_append_drop, text_constructs]
  intro hhead
  rw [hsplit, List.head?_append, hhead] at hmark
  exact hmark rfl

/-- The construct that makes a text offend, and what is wrong with it. However the
    text goes on, this is what is wrong. -/
theorem exists_of_offends {cs : List Char} (hmark : cs.head? ≠ some '\uFEFF') {k : Nat}
    (hbefore : ¬ Offends (upTo cs k)) (h : Offends (upTo cs (k + 1))) :
    ∃ c f, (constructs cs)[k]? = some c ∧ f.offset = Text.byteSize (upTo cs k ++ c.lead) ∧
      ∀ j, k < j → read (upTo cs j) = .error f := by
  rw [offends_iff (unmarked_upTo hmark _) [], constructs_upTo] at hbefore h
  rcases h with ⟨f, hrun⟩
  cases hg : ((constructs cs).take k).foldlM (Growth.consume []) {} with
  | error fault => exact absurd ⟨fault, hg⟩ hbefore
  | ok g =>
      -- There is one more construct, or else the two texts would be the same.
      cases hc : (constructs cs)[k]? with
      | none =>
          rw [List.take_add_one, hc, Option.toList_none, List.append_nil, hg] at hrun
          simp at hrun
      | some c =>
          have hplaced : g.Placed (upTo cs k) := Growth.placed_empty.consumes hg
          have hconsume : g.consume [] c = .error f := by
            rw [List.take_add_one, hc, List.foldlM_append, hg] at hrun
            change [c].foldlM (Growth.consume []) g = _ at hrun
            rw [List.foldlM_cons] at hrun
            rcases bind_eq_error_iff.1 hrun with hconsume | ⟨next, _, hnext⟩
            · exact hconsume
            · simp [pure, Except.pure] at hnext
          -- A longer beginning has the same run up to the failure.
          refine ⟨c, f, rfl, hplaced.offset_of_consume_error hconsume, fun j hj => ?_⟩
          rcases exists_take_append hj cs with ⟨more, hmore⟩
          rw [read_eq_error_iff (unmarked_upTo hmark j) [], constructs_upTo, hmore,
            List.foldlM_append, hrun]
          exact .inl rfl

/-- A text in which no construct is at fault is accepted, or an element is open
    at its end. -/
theorem exists_of_not_offends {cs : List Char} (hmark : cs.head? ≠ some '\uFEFF')
    (h : ¬ Offends cs) : (∃ nodes, read cs = .ok nodes) ∨
      ∃ before content inside, (cut cs).tokens = before ++ .startTag content :: inside ∧
        Balanced inside ∧
        read cs = .error ⟨.unclosed (String.ofList (tagName content)),
          Text.byteSize (before.flatMap Token.raw)⟩ := by
  cases hread : read cs with
  | ok nodes => exact .inl ⟨nodes, rfl⟩
  | error f =>
      rw [offends_iff hmark cs] at h
      rcases (read_eq_error_iff hmark cs).1 hread with hrun | ⟨g, hrun, hfinish⟩
      · exact absurd ⟨f, hrun⟩ h
      · -- A construct that does not end would be at fault, so there are tokens only.
        have hterminated : (cut cs).failure = none := by
          cases hfailure : (cut cs).failure with
          | none => rfl
          | some failure =>
              rw [constructs, hfailure, List.foldlM_append] at hrun
              rcases bind_eq_ok_iff.1 hrun with ⟨_, _, hlast⟩
              simp [Construct.left, Growth.consume, bind, Except.bind] at hlast
        rw [constructs_of_terminated hterminated, List.foldlM_map] at hrun
        have hnests : Nests ([] ++ (cut cs).tokens) g.opened :=
          Nests.run Growth.placed_empty rfl hrun
        rcases Growth.finish_none_eq_error_iff.1 hfinish with ⟨e, opened, hopened, rfl⟩
        rw [hopened] at hnests
        rcases hnests with ⟨before, content, inside, hsplit, hinside, hname, hoffset, _⟩
        exact .inr ⟨before, content, inside, hsplit, hinside, by rw [hname, hoffset]⟩

end Faithful

open Faithful

/-- A text without a byte order mark is read construct by construct, and the first
    construct at fault is the one that is blamed. If the first constructs up to
    one offend, and none of the shorter beginnings does, then every beginning
    that goes on behind this construct is refused alike, and at the place of the
    construct. If no beginning offends, then the text is accepted, or its
    innermost open element is reported where it starts. -/
theorem parse_upTo {source : String} (hmark : source.toList.head? ≠ some '\uFEFF') :
    (constructs source.toList).flatMap Construct.text = source.toList ∧
    (∀ count, constructs (upTo source.toList count) = (constructs source.toList).take count) ∧
    (∀ k, Offends (upTo source.toList (k + 1)) →
      (∀ i ≤ k, ¬ Offends (upTo source.toList i)) →
        ∃ c m, (constructs source.toList)[k]? = some c ∧
          m.location = Location.behind (upTo source.toList k ++ c.lead) ∧
          ∀ j, k < j →
            Document.parse .faithful (String.ofList (upTo source.toList j)) = .error m) ∧
    ((∀ i, ¬ Offends (upTo source.toList i)) →
      (∃ d, Document.parse .faithful source = .ok d) ∨
        ∃ before content inside m,
          (cut source.toList).tokens = before ++ .startTag content :: inside ∧ Balanced inside ∧
            Document.parse .faithful source = .error m ∧
            m.detail = s!"unclosed tag <{String.ofList (tagName content)}>" ∧
            m.location = Location.behind (before.flatMap Token.raw)) := by
  refine ⟨text_constructs _, constructs_upTo _, fun k hk hbefore => ?_, fun hall => ?_⟩
  · rcases exists_of_offends hmark (hbefore k (Nat.le_refl k)) hk with
      ⟨c, f, hc, hoffset, hread⟩
    refine ⟨c, ⟨f.defect.message, Location.behind (upTo source.toList k ++ c.lead)⟩, hc, rfl,
      fun j hj => parse_eq_error_iff_read.2 ⟨f, ?_, ?_⟩⟩
    · rw [String.toList_ofList]
      exact hread j hj
    · -- The text goes on behind the lead of the construct.
      have hnext : upTo source.toList (k + 1) = upTo source.toList k ++ c.text := by
        rw [upTo, List.take_add_one, hc, List.flatMap_append]
        simp [upTo]
      rcases exists_take_append hj source.toList with ⟨more, hmore⟩
      have hlonger : upTo source.toList j =
          upTo source.toList (k + 1) ++ more.flatMap Construct.text := by
        rw [upTo, hmore, List.flatMap_append]
        rfl
      rcases c.exists_lead_append with ⟨rest, hrest⟩
      rw [Fault.toMalformed, Malformed.atOffset, String.toList_ofList, hoffset, hlonger, hnext,
        hrest, ← List.append_assoc, List.append_assoc, Location.ofOffset_byteSize]
  · -- The source is the longest of its own beginnings.
    have hwhole : upTo source.toList (constructs source.toList).length = source.toList := by
      rw [upTo, List.take_length, text_constructs]
    have hnot := hall (constructs source.toList).length
    rw [hwhole] at hnot
    rcases exists_of_not_offends hmark hnot with ⟨nodes, hread⟩ |
      ⟨before, content, inside, hsplit, hinside, hread⟩
    · exact .inl ⟨⟨.faithful, nodes⟩, parse_eq_ok_iff_read.2 ⟨rfl, hread⟩⟩
    · refine .inr ⟨before, content, inside, _, hsplit, hinside,
        parse_eq_error_iff_read.2 ⟨_, hread, rfl⟩, rfl, ?_⟩
      rcases exists_raw_cut source.toList with ⟨rest, hrest⟩
      change Location.ofOffset source.toList _ = _
      rw [hrest, hsplit, List.flatMap_append, List.append_assoc, Location.ofOffset_byteSize]

/-- The third construct of a text is at fault, whatever follows it. -/
theorem parse_upTo_stray :
    "<a></a></b> ".toList.head? ≠ some '\uFEFF' ∧ ∃ c m,
      (constructs "<a></a></b> ".toList)[2]? = some c ∧ m.location = ⟨1, 8⟩ ∧
        ∀ j, 2 < j →
          Document.parse .faithful (String.ofList (upTo "<a></a></b> ".toList j)) = .error m := by
  have hmark : "<a></a></b> ".toList.head? ≠ some '\uFEFF' := by decide
  have hopen : Faithful.read (upTo "<a></a></b> ".toList 1) = .error ⟨.unclosed "a", 0⟩ := by cbv
  have hstray : Faithful.read (upTo "<a></a></b> ".toList 3) = .error ⟨.strayEnd "b", 7⟩ := by cbv
  -- The shorter beginnings are accepted, or have an element that is still open.
  have hbefore : ∀ i ≤ 2, ¬ Offends (upTo "<a></a></b> ".toList i) := by
    rintro i hi ⟨m, hparse, hname⟩
    rcases parse_eq_error_iff_read.1 hparse with ⟨f, hread, rfl⟩
    rw [String.toList_ofList] at hread
    rcases (by omega : i = 0 ∨ i = 1 ∨ i = 2) with rfl | rfl | rfl
    · rw [(by cbv : Faithful.read (upTo "<a></a></b> ".toList 0) = .ok [])] at hread
      simp at hread
    · rcases Except.error.inj (hopen.symm.trans hread) with rfl
      exact hname "a" rfl
    · rw [(by cbv : Faithful.read (upTo "<a></a></b> ".toList 2) =
        .ok [.element { name := "a" } []])] at hread
      simp at hread
  have hoffends : Offends (upTo "<a></a></b> ".toList 3) :=
    ⟨_, parse_eq_error_iff_read.2 ⟨_, by rw [String.toList_ofList]; exact hstray, rfl⟩,
      Defect.message_ne (by simp)⟩
  rcases (parse_upTo hmark).2.2.1 2 hoffends hbefore with ⟨c, m, hc, hlocation, hrest⟩
  have hthird : (constructs "<a></a></b> ".toList)[2]? = some (.whole (.endTag ['b'])) := by cbv
  rcases Option.some.inj (hthird.symm.trans hc) with rfl
  exact ⟨hmark, _, m, hc, hlocation.trans (by cbv), hrest⟩

end SoleRoot

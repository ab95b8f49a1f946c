import SoleRoot.Markup.Document
import SoleRoot.Proofs.Faithful.Event

/-!
# Acceptance

Which texts the faithful dialect accepts, and which tree it makes of them.

A text is accepted if three things hold of its tokens. The last construct ends,
every token is valid on its own, and the tags match. Matching is a walk over the
tokens with the names of the open elements as a stack: a start tag puts its name
on top, an end tag takes the top away and must bear its name, and at the end the
stack is empty again. `parse_faithful_eq_ok_iff` says that these are all the
conditions there are. The tree is then the one whose events are the events of the
tokens, and since a tree is determined by its events there is only one.

The reader does not work with events. It holds finished nodes and half-built
elements, and the proof is about what these amount to. `Growth.events` is the
row of events that a state stands for: for each open element, outermost first,
the nodes before it and its start, and then the finished nodes of the innermost
level. A token that is accepted adds its own event at the end of this row and
changes the names of the open elements as the walk does.

The elements that are open have not been given an end tag. `Growth.Bare` records
this, since otherwise the start of an element could change when its end tag is
read.

## Main definitions

* `Token.Valid`: What is asked of a token on its own.
* `Token.walk`, `Balanced`: Matching tags with a stack.
* `Acceptable`: What is asked of the tokens of a text.
* `eventsFrom`: The events of the tokens of a text.
* `Growth.names`, `Growth.events`: What a state of the reader stands for.

## Theorems

* `Growth.step_spec`: What one token adds.
* `Growth.exists_step`: When a token is accepted.
* `Growth.run_spec`, `Growth.exists_run`: The same for a run over all tokens.
* `read_eq_ok_iff`: What is accepted, and what is read.
* `read_eq_ok_iff_of_unmarked`: The same, every token found at its own place.
* `parse_faithful_eq_ok_iff`: The same for documents.
-/

namespace SoleRoot

namespace Faithful

namespace Token

/-- What is asked of a token on its own. -/
def Valid : Token → Prop
  | text content => check content = .ok ()
  | startTag content | selfClosingTag content =>
    ∃ s : Clauses, tagRest content = s.text ∧ s.Valid
  | doctype content => ∃ c ∈ content.drop 7, Text.isXmlSpace c = false
  | _ => True

/-- The names of the open elements behind a token, the innermost first. -/
def walk (names : List String) : Token → Option (List String)
  | startTag content => some (String.ofList (tagName content) :: names)
  | endTag content =>
    match names with
    | [] => none
    | name :: names => if name = String.ofList (endName content) then some names else none
  | _ => some names

end Token

/-- Whether every end tag bears the name of the innermost element that is open,
    and none is open at the end. -/
def Balanced (ts : List Token) : Prop :=
  ts.foldlM Token.walk [] = some []

/-- What is asked of the tokens of a text. -/
structure Acceptable (pieces : Cut) : Prop where
  terminated : pieces.failure = none
  valid : ∀ t ∈ pieces.tokens, t.Valid
  balanced : Balanced pieces.tokens

/-- The events of tokens that start at byte `offset` of the source. -/
def eventsFrom (source : List Char) : (offset : Nat) → List Token → List Event
  | _, [] => []
  | offset, t :: ts =>
    (t.event? (Text.slice? offset (offset + Text.byteSize t.raw) source)).toList ++
      eventsFrom source (offset + Text.byteSize t.raw) ts

namespace Growth

/-- The names of the open elements, the innermost first. -/
def names (g : Growth) : List String :=
  g.opened.map (·.tag.name)

/-- The events that lead into the open elements. -/
def openEvents : List OpenElement → List Event
  | [] => []
  | e :: es => openEvents es ++ flattenAll e.before.reverse ++ [.start e.tag]

/-- The events of what has been read. -/
def events (g : Growth) : List Event :=
  openEvents g.opened ++ flattenAll g.nodes.reverse

/-- Whether the open elements say nothing yet of how they end. -/
def Bare (g : Growth) : Prop :=
  ∀ e ∈ g.opened, e.tag.selfClosing = false ∧ e.tag.endTrailing = none

theorem events_push (g : Growth) (n : Node) : (g.push n).events = g.events ++ flatten n := by
  simp only [events, push, List.reverse_cons, flattenAll_append, flattenAll_cons, flattenAll_nil,
    List.append_nil, List.append_assoc]

/-- An end tag adds its own event: the start of its element is there already. -/
theorem events_close {g : Growth} {e : OpenElement} {opened : List OpenElement}
    (hopened : g.opened = e :: opened) (hself : e.tag.selfClosing = false)
    (hend : e.tag.endTrailing = none) (space : Option String) :
    Growth.events { g with
      opened
      nodes := .element { e.tag with endTrailing := space } g.nodes.reverse :: e.before } =
      g.events ++ [.stop e.tag.name space] := by
  -- The start of the element is the event that it was opened with.
  have hflatten : flatten (.element { e.tag with endTrailing := space } g.nodes.reverse) =
      .start { e.tag with endTrailing := none } ::
        (flattenAll g.nodes.reverse ++ [.stop e.tag.name space]) :=
    flatten_element (by rw [hself, Bool.false_and])
  have htag : { e.tag with endTrailing := none } = e.tag := by rw [← hend]
  rw [htag] at hflatten
  simp only [events, hopened, openEvents, List.reverse_cons, flattenAll_append, flattenAll_cons,
    flattenAll_nil, List.append_nil, List.append_assoc, hflatten, List.cons_append, List.nil_append]

/-- What a token that was accepted has done to the state. -/
structure Accepts (source : List Char) (g : Growth) (t : Token) (g' : Growth) : Prop where
  valid : t.Valid
  walk : t.walk g.names = some g'.names
  bare : g'.Bare
  events : g'.events = g.events ++
    (t.event? (Text.slice? g.offset (g.offset + Text.byteSize t.raw) source)).toList

section Step

variable {source : List Char} {g g' : Growth} {t : Token}

theorem accepts_push {n : Node} (hbare : g.Bare) (hvalid : t.Valid)
    (hwalk : t.walk g.names = some g.names)
    (hevent : (t.event? (Text.slice? g.offset (g.offset + Text.byteSize t.raw) source)).toList =
      flatten n) : Accepts source g t (g.push n) where
  valid := hvalid
  walk := hwalk
  bare := hbare
  events := by rw [events_push, hevent]

/-- Every way in which a token can be accepted. -/
theorem accept_spec (hbare : g.Bare) (h : g.accept source t = .ok g') : Accepts source g t g' := by
  cases t with
  -- Whatever is accepted leaves a node, or nothing, or it opens or closes an element.
  | text content =>
      simp only [accept] at h
      split at h
      · simp at h
      · rename_i hcheck
        rcases Except.ok.inj h with rfl
        exact accepts_push hbare hcheck rfl rfl
  | comment content =>
      rcases Except.ok.inj h with rfl
      exact accepts_push hbare trivial rfl rfl
  | cdata content =>
      rcases Except.ok.inj h with rfl
      exact accepts_push hbare trivial rfl rfl
  | instruction content =>
      rcases Except.ok.inj h with rfl
      exact ⟨trivial, rfl, hbare, (List.append_nil _).symm⟩
  | doctype content =>
      simp only [accept] at h
      split at h
      · simp at h
      · rename_i hspace
        rcases Except.ok.inj h with rfl
        refine ⟨?_, rfl, hbare, (List.append_nil _).symm⟩
        simpa only [Token.Valid, List.all_eq_true, not_forall, Bool.not_eq_true, exists_prop]
          using hspace
  | selfClosingTag content =>
      simp only [accept] at h
      split at h
      · simp at h
      · rename_i tag htag
        rcases Except.ok.inj h with rfl
        rcases readTag_eq_ok_iff.1 htag with ⟨rfl, hvalid⟩
        exact accepts_push hbare hvalid rfl (flatten_single rfl).symm
  | startTag content =>
      simp only [accept] at h
      split at h
      · simp at h
      · rename_i tag htag
        rcases Except.ok.inj h with rfl
        rcases readTag_eq_ok_iff.1 htag with ⟨rfl, hvalid⟩
        refine ⟨hvalid, rfl, ?_, ?_⟩
        · intro e he
          rcases List.mem_cons.1 he with rfl | he
          · exact ⟨rfl, rfl⟩
          · exact hbare e he
        · -- The finished nodes of the level so far go before the start.
          rw [events, openEvents, List.reverse_nil, flattenAll_nil, List.append_nil]
          rfl
  | endTag content =>
      simp only [accept] at h
      split at h
      · simp at h
      · rename_i e opened hopened
        split at h
        · -- The names are equal, so the name of the start stands for that of the stop.
          rename_i hname
          rcases Except.ok.inj h with rfl
          rcases hbare e (by rw [hopened]; exact List.mem_cons_self) with ⟨hself, hend⟩
          refine ⟨trivial, ?_, ?_, ?_⟩
          · rw [names, hopened, List.map_cons, Token.walk, if_pos hname]
            rfl
          · exact fun e' he' => hbare e' (by rw [hopened]; exact List.mem_cons_of_mem e he')
          · rw [events_close hopened hself hend, hname]
            rfl
        · simp at h

theorem exists_accept (source : List Char) {names : List String} (hvalid : t.Valid)
    (hwalk : t.walk g.names = some names) : ∃ g', g.accept source t = .ok g' := by
  cases t with
  | text content => exact ⟨_, by rw [accept, hvalid]⟩
  | comment content => exact ⟨_, rfl⟩
  | cdata content => exact ⟨_, rfl⟩
  | instruction content => exact ⟨_, rfl⟩
  | doctype content =>
      rcases hvalid with ⟨c, hc, hspace⟩
      refine ⟨_, if_neg fun hall => ?_⟩
      rw [List.all_eq_true.1 hall c hc] at hspace
      exact Bool.noConfusion hspace
  | selfClosingTag content =>
      have htag := readTag_eq_ok_iff.2 ⟨rfl (a := spelledTag true content), hvalid⟩
      exact ⟨_, by rw [accept, htag]⟩
  | startTag content =>
      have htag := readTag_eq_ok_iff.2 ⟨rfl (a := spelledTag false content), hvalid⟩
      exact ⟨_, by rw [accept, htag]⟩
  | endTag content =>
      cases hopened : g.opened with
      | nil => simp [Growth.names, hopened, Token.walk] at hwalk
      | cons e opened =>
          simp only [Growth.names, hopened, List.map_cons, Token.walk] at hwalk
          split at hwalk
          · rename_i hname
            simp only [accept, hopened, if_pos hname]
            exact ⟨_, rfl⟩
          · simp at hwalk

theorem step_eq_ok_iff : g.step source t = .ok g' ↔
    ∃ a, g.accept source t = .ok a ∧ g' = { a with offset := g.offset + Text.byteSize t.raw } := by
  rw [step, bind_eq_ok_iff]
  simp only [Except.ok.injEq, eq_comm]

/-- What one token adds. -/
theorem step_spec (hbare : g.Bare) (h : g.step source t = .ok g') :
    Accepts source g t g' ∧ g'.offset = g.offset + Text.byteSize t.raw := by
  rcases step_eq_ok_iff.1 h with ⟨a, ha, rfl⟩
  rcases accept_spec hbare ha with ⟨hvalid, hwalk, hbare', hevents⟩
  exact ⟨⟨hvalid, hwalk, hbare', hevents⟩, rfl⟩

/-- When a token is accepted. -/
theorem exists_step (source : List Char) {names : List String} (hvalid : t.Valid)
    (hwalk : t.walk g.names = some names) : ∃ g', g.step source t = .ok g' := by
  rcases exists_accept source hvalid hwalk with ⟨a, ha⟩
  exact ⟨_, step_eq_ok_iff.2 ⟨a, ha, rfl⟩⟩

end Step

section Run

variable {source : List Char} {ts : List Token} {g g' : Growth}

/-- What a run over tokens adds. -/
theorem run_spec (hbare : g.Bare) (h : ts.foldlM (step source) g = .ok g') :
    (∀ t ∈ ts, t.Valid) ∧ ts.foldlM Token.walk g.names = some g'.names ∧
      g'.events = g.events ++ eventsFrom source g.offset ts := by
  induction ts generalizing g with
  | nil =>
      rcases Except.ok.inj h with rfl
      exact ⟨by simp, rfl, (List.append_nil _).symm⟩
  | cons t ts ih =>
      rw [List.foldlM_cons] at h
      rcases bind_eq_ok_iff.1 h with ⟨next, hstep, hrun⟩
      rcases step_spec hbare hstep with ⟨⟨hvalid, hwalk, hbare', hevents⟩, hoffset⟩
      rcases ih hbare' hrun with ⟨hvalids, hwalks, hrest⟩
      refine ⟨?_, ?_, ?_⟩
      · exact List.forall_mem_cons.2 ⟨hvalid, hvalids⟩
      · rw [List.foldlM_cons, hwalk]
        exact hwalks
      · rw [hrest, hevents, hoffset, eventsFrom, List.append_assoc]

/-- A run that the walk over the names allows is accepted. -/
theorem exists_run (source : List Char) {names : List String} (hbare : g.Bare)
    (hvalid : ∀ t ∈ ts, t.Valid)
    (hwalk : ts.foldlM Token.walk g.names = some names) :
    ∃ g', ts.foldlM (step source) g = .ok g' := by
  induction ts generalizing g with
  | nil => exact ⟨g, rfl⟩
  | cons t ts ih =>
      rw [List.foldlM_cons] at hwalk
      rcases Option.bind_eq_some_iff.1 hwalk with ⟨between, hfirst, hrest⟩
      rcases exists_step source (hvalid t List.mem_cons_self) hfirst with ⟨next, hstep⟩
      rcases step_spec hbare hstep with ⟨⟨_, hnames, hbare', _⟩, _⟩
      -- The walk over the names is a function, so it is where the reader is.
      have hbetween : between = next.names := Option.some.inj (hfirst.symm.trans hnames)
      rcases ih hbare' (fun u hu => hvalid u (List.mem_cons_of_mem t hu))
        (hbetween ▸ hrest) with ⟨g', hrun⟩
      refine ⟨g', ?_⟩
      rw [List.foldlM_cons, hstep]
      exact hrun

end Run

/-- Only a state in which nothing is open is a finished one. -/
theorem finish_eq_ok_iff {g : Growth} {failure : Option Unterminated} {nodes : List Node} :
    g.finish failure = .ok nodes ↔ failure = none ∧ g.names = [] ∧ nodes = g.nodes.reverse := by
  unfold finish names
  split
  · simp
  · rename_i hopened
    simp [hopened]
  · rename_i hopened
    simp [hopened, eq_comm]

end Growth

/-- What is read from a text has the events of its tokens. -/
theorem read_spec {source : List Char} {nodes : List Node} (h : read source = .ok nodes) :
    Acceptable (cut (Text.dropMark source)) ∧
      flattenAll nodes = eventsFrom source 0 (cut (Text.dropMark source)).tokens := by
  rw [read] at h
  rcases bind_eq_ok_iff.1 h with ⟨g, hrun, hfinish⟩
  rcases Growth.finish_eq_ok_iff.1 hfinish with ⟨hfailure, hnames, rfl⟩
  rcases Growth.run_spec (fun e he => by simp at he) hrun with ⟨hvalid, hwalk, hevents⟩
  refine ⟨⟨hfailure, hvalid, hwalk.trans (congrArg some hnames)⟩, ?_⟩
  -- Nothing is open, so the row of events has no part before the finished nodes.
  have hopened : g.opened = [] := List.map_eq_nil_iff.1 hnames
  rw [Growth.events, hopened] at hevents
  simpa [Growth.events, Growth.openEvents] using hevents

/-- If the tokens of a text are acceptable, then there is a tree of it. -/
theorem exists_read {source : List Char} (h : Acceptable (cut (Text.dropMark source))) :
    ∃ nodes, read source = .ok nodes := by
  have hbare : Growth.Bare {} := fun e he => by simp at he
  rcases Growth.exists_run source hbare h.valid h.balanced with ⟨g, hrun⟩
  -- The walk ends with no names, and it ends where the reader does.
  rcases Growth.run_spec hbare hrun with ⟨_, hwalk, _⟩
  have hnames : g.names = [] := (Option.some.inj (h.balanced.symm.trans hwalk)).symm
  have hfinish := Growth.finish_eq_ok_iff.2 ⟨h.terminated, hnames, rfl⟩
  exact ⟨g.nodes.reverse, bind_eq_ok_iff.2 ⟨g, hrun, hfinish⟩⟩

/-- What is accepted, and what is read. -/
theorem read_eq_ok_iff {source : List Char} {nodes : List Node} :
    read source = .ok nodes ↔ Acceptable (cut (Text.dropMark source)) ∧
      flattenAll nodes = eventsFrom source 0 (cut (Text.dropMark source)).tokens := by
  constructor
  · exact read_spec
  · rintro ⟨hacceptable, hflatten⟩
    rcases exists_read hacceptable with ⟨nodes', hread⟩
    -- The nodes asked for have the same events as those that are read.
    have hnodes : nodes = nodes' := flattenAll_injective (hflatten.trans (read_spec hread).2.symm)
    rw [hnodes, hread]

/-- Behind no byte order mark every token is found at its own place. -/
theorem eventsFrom_raw (before : List Char) (ts : List Token) :
    eventsFrom (before ++ ts.flatMap Token.raw) (Text.byteSize before) ts =
      ts.filterMap Token.ownEvent? := by
  induction ts generalizing before with
  | nil => rfl
  | cons t ts ih =>
      -- The text before a token is what has been read, down to the byte.
      have hslice := Text.slice?_append before t.raw (ts.flatMap Token.raw)
      have hrest := ih (before ++ t.raw)
      rw [Text.byteSize_append, List.append_assoc] at hrest
      rw [List.append_assoc] at hslice
      rw [eventsFrom, List.flatMap_cons, hslice, hrest, List.filterMap_cons]
      change (t.ownEvent?).toList ++ _ = _
      cases t.ownEvent? with
      | none => rfl
      | some e => rfl

/-- What is accepted, and what is read, if the text has no byte order mark. -/
theorem read_eq_ok_iff_of_unmarked {source : List Char} {nodes : List Node}
    (hmark : source.head? ≠ some '\uFEFF') :
    read source = .ok nodes ↔ Acceptable (cut source) ∧
      flattenAll nodes = (cut source).tokens.filterMap Token.ownEvent? := by
  rw [read_eq_ok_iff, Text.dropMark_of_unmarked hmark]
  refine and_congr_right fun hacceptable => ?_
  have hevents := eventsFrom_raw [] (cut source).tokens
  rw [List.nil_append, raw_cut hacceptable.terminated, Text.byteSize_nil] at hevents
  rw [hevents]

theorem parse_eq_ok_iff_read {source : String} {d : Document} :
    Document.parse .faithful source = .ok d ↔
      d.mode = .faithful ∧ read source.toList = .ok d.nodes := by
  simp only [Document.parse, Document.parseNodes]
  cases read source.toList with
  | error fault => simp [Except.mapError, Except.map]
  | ok nodes =>
      simp only [Except.mapError, Except.map, Except.ok.injEq]
      constructor
      · rintro rfl
        exact ⟨rfl, rfl⟩
      · rintro ⟨hmode, hnodes⟩
        rw [hnodes, ← hmode]

end Faithful

/-- A text is accepted exactly if its tokens end, are valid and match, and then
    the document is the one whose events are those of the tokens. -/
theorem parse_faithful_eq_ok_iff (source : String) :
    ((∃ d, Document.parse .faithful source = .ok d) ↔
      Faithful.Acceptable (Faithful.cut (Text.dropMark source.toList))) ∧
    ∀ d, Document.parse .faithful source = .ok d ↔
      Faithful.Acceptable (Faithful.cut (Text.dropMark source.toList)) ∧ d.mode = .faithful ∧
        ∀ nodes, Faithful.flattenAll nodes =
          Faithful.eventsFrom source.toList 0
            (Faithful.cut (Text.dropMark source.toList)).tokens ↔ nodes = d.nodes := by
  constructor
  · constructor
    · rintro ⟨d, hd⟩
      exact (Faithful.read_eq_ok_iff.1 (Faithful.parse_eq_ok_iff_read.1 hd).2).1
    · intro h
      rcases Faithful.exists_read h with ⟨nodes, hnodes⟩
      exact ⟨⟨.faithful, nodes⟩, Faithful.parse_eq_ok_iff_read.2 ⟨rfl, hnodes⟩⟩
  · intro d
    rw [Faithful.parse_eq_ok_iff_read, Faithful.read_eq_ok_iff]
    constructor
    · rintro ⟨hmode, hacceptable, hflatten⟩
      refine ⟨hacceptable, hmode, fun nodes => ⟨fun h => ?_, fun h => ?_⟩⟩
      · exact Faithful.flattenAll_injective (h.trans hflatten.symm)
      · rw [h, hflatten]
    · rintro ⟨hacceptable, hmode, hunique⟩
      exact ⟨hmode, hacceptable, (hunique d.nodes).2 rfl⟩

end SoleRoot

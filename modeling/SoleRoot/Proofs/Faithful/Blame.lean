import SoleRoot.Proofs.Faithful.Acceptance
import SoleRoot.Proofs.Text.Offsets

/-!
# Where a Fault Lies

A fault is located at a place between two characters, and it does not depend on
the text that the offsets are resolved against.

Most faults lie where a token starts. A document type without a name is at fault
one byte before its end, which is where its closing bracket starts. An element
that is never closed is at fault where its start tag started, so the offsets that
are kept for the open elements have to be places, too: `Growth.Placed` is the
invariant.

The reader is given the whole text only to look up the end tags in it, and what
it finds there goes into the tree. It decides nothing: two runs over the same
tokens accept together, or fail with the same fault. What the two runs have in
common is their `Growth.outline`. Nor does it matter how much has been read before:
if one run starts some bytes further on than the other, its fault lies as many bytes
further on, and that is all. The first is the case of no bytes.

## Main definitions

* `Growth.Placed`: The offsets of a state are places in what has been read.
* `Growth.outline`: What decides how the reading goes on.
* `Fault.moved`: A fault that lies some bytes further on.

## Theorems

* `Growth.run_moved`: The same tokens some bytes further on.
* `isCut_of_read_error`: A fault lies between two characters.
* `read_congr`: Two readings of the same tokens have the same fault, if any.
* `exists_of_parse_error`: The location that is reported is behind what stands
  before the fault.
-/

namespace SoleRoot

namespace Faithful

/-- A fault that lies some bytes further on. -/
def Fault.moved (k : Nat) (f : Fault) : Fault :=
  { f with offset := f.offset + k }

/-- A fault that is moved by no bytes stays where it is. -/
theorem mapError_moved_zero {α : Type} (x : Except Fault α) : x.mapError (Fault.moved 0) = x := by
  cases x with
  | error f => rfl
  | ok a => rfl

namespace Growth

/-- Whether the offsets of a state are places in what has been read. -/
structure Placed (done : List Char) (g : Growth) : Prop where
  offset : g.offset = Text.byteSize done
  opened : ∀ e ∈ g.opened, Text.IsCut done e.offset

/-- What decides how the reading goes on: the byte that comes next, and the names
    and the places of the open elements. -/
def outline (g : Growth) : Nat × List (String × Nat) :=
  (g.offset, g.opened.map fun e => (e.tag.name, e.offset))

/-- The same with all bytes counted from `k` bytes before. -/
def outlineFrom (k : Nat) (g : Growth) : Nat × List (String × Nat) :=
  (g.offset + k, g.opened.map fun e => (e.tag.name, e.offset + k))

/-- At the start nothing has been read and nothing is open. -/
theorem placed_empty : Placed [] {} := ⟨rfl, fun e he => by simp at he⟩

section Step

variable {source done : List Char} {g g' : Growth} {t : Token} {f : Fault}

/-- An element that is open was open before, or the token opened it. -/
theorem mem_opened_of_accept (h : g.accept source t = .ok g') {e : OpenElement}
    (he : e ∈ g'.opened) : e ∈ g.opened ∨ e.offset = g.offset := by
  cases t with
  | text content | selfClosingTag content | doctype content =>
      simp only [accept] at h
      split at h
      · simp at h
      · rcases Except.ok.inj h with rfl
        exact .inl he
  | comment content | cdata content | instruction content =>
      rcases Except.ok.inj h with rfl
      exact .inl he
  | startTag content =>
      simp only [accept] at h
      split at h
      · simp at h
      · rcases Except.ok.inj h with rfl
        rcases List.mem_cons.1 he with rfl | he
        · exact .inr rfl
        · exact .inl he
  -- An end tag closes an element and leaves the ones around it as they were.
  | endTag content =>
      simp only [accept] at h
      split at h
      · simp at h
      · rename_i e' opened hopened
        split at h
        · rcases Except.ok.inj h with rfl
          exact .inl (hopened ▸ List.mem_cons_of_mem e' he)
        · simp at h

/-- A fault lies where the token starts, or at the bracket that ends a document
    type. -/
theorem offset_of_accept_error (h : g.accept source t = .error f) :
    f.offset = g.offset ∨
      ∃ content, t = .doctype content ∧ f.offset = g.offset + Text.byteSize t.raw - 1 := by
  cases t with
  | text content | selfClosingTag content | startTag content =>
      simp only [accept] at h
      split at h
      · exact .inl (by rw [← Except.error.inj h])
      · simp at h
  | comment content | cdata content | instruction content => simp [accept] at h
  -- A document type is the only token that is found at fault at its end.
  | doctype content =>
      simp only [accept] at h
      split at h
      · exact .inr ⟨content, rfl, by rw [← Except.error.inj h]⟩
      · simp at h
  | endTag content =>
      simp only [accept] at h
      split at h
      · exact .inl (by rw [← Except.error.inj h])
      · split at h
        · simp at h
        · exact .inl (by rw [← Except.error.inj h])

/-- A step goes wrong only where its token is refused. -/
theorem accept_of_step_error (h : g.step source t = .error f) : g.accept source t = .error f := by
  rcases bind_eq_error_iff.1 h with haccept | ⟨a, _, hmoved⟩
  · exact haccept
  · simp at hmoved

/-- A token keeps the offsets at places, since it starts at one and ends at one. -/
theorem Placed.step (hplaced : g.Placed done) (h : g.step source t = .ok g') :
    g'.Placed (done ++ t.raw) := by
  rcases step_eq_ok_iff.1 h with ⟨a, ha, rfl⟩
  refine ⟨by rw [Text.byteSize_append, ← hplaced.offset], fun e he => ?_⟩
  rcases mem_opened_of_accept ha he with he | hoffset
  -- What could be cut before more was read can still be cut.
  · exact (hplaced.opened e he).append t.raw
  · rw [hoffset, hplaced.offset]
    exact Text.isCut_byteSize done t.raw

/-- The fault of a token lies at a place in what has been read with it. -/
theorem Placed.isCut_of_step_error (hplaced : g.Placed done) (h : g.step source t = .error f) :
    Text.IsCut (done ++ t.raw) f.offset := by
  rcases offset_of_accept_error (accept_of_step_error h) with hoffset | ⟨content, rfl, hoffset⟩
  · rw [hoffset, hplaced.offset]
    exact Text.isCut_byteSize done t.raw
  · -- The bracket at the end is one byte long.
    refine ⟨done ++ '<' :: '!' :: content, ['>'], by simp [Token.raw], ?_⟩
    have hbracket : Char.utf8Size '>' = 1 := by decide
    simp only [hoffset, hplaced.offset, Token.raw, Text.byteSize_append, Text.byteSize_cons,
      Text.byteSize_nil, hbracket, List.cons_append]
    omega

/-- A state that is some bytes further on does the same with a token, and a fault
    of it lies as many bytes further on. -/
theorem accept_moved {source' : List Char} {k : Nat} (h : g'.outline = g.outlineFrom k) :
    (g'.accept source' t).map outline =
      ((g.accept source t).mapError (Fault.moved k)).map (outlineFrom k) := by
  rcases g with ⟨offset, opened, nodes⟩
  rcases g' with ⟨offset', opened', nodes'⟩
  simp only [outline, outlineFrom, Prod.mk.injEq] at h
  rcases h with ⟨rfl, hopened⟩
  cases t with
  | text content =>
      simp only [accept]
      cases check content with
      | error fault => rfl
      | ok _ => exact congrArg (fun o => Except.ok (offset + k, o)) hopened
  | comment content | cdata content | instruction content =>
      exact congrArg (fun o => Except.ok (offset + k, o)) hopened
  | doctype content =>
      simp only [accept]
      split
      · -- The bracket at the end is not the first byte of the token.
        have hsize : 0 < Text.byteSize (Token.doctype content).raw := by
          have hfirst := Char.utf8Size_pos '<'
          rw [Token.raw, List.cons_append, Text.byteSize_cons]
          omega
        have hmoved : offset + k + Text.byteSize (Token.doctype content).raw - 1 =
            offset + Text.byteSize (Token.doctype content).raw - 1 + k := by omega
        simp only [Except.map, Except.mapError, Fault.moved, hmoved]
      · exact congrArg (fun o => Except.ok (offset + k, o)) hopened
  | startTag content =>
      simp only [accept]
      cases readTag false content with
      | error fault => rfl
      | ok tag =>
          exact congrArg (fun o => Except.ok (offset + k, (tag.name, offset + k) :: o)) hopened
  | selfClosingTag content =>
      simp only [accept]
      cases readTag true content with
      | error fault => rfl
      | ok tag => exact congrArg (fun o => Except.ok (offset + k, o)) hopened
  -- Whether an end tag is accepted depends on the name of the innermost open element alone.
  | endTag content =>
      cases opened with
      | nil =>
          rw [List.map_nil, List.map_eq_nil_iff] at hopened
          rw [hopened]
          rfl
      | cons e opened =>
          rw [List.map_cons, List.map_eq_cons_iff] at hopened
          rcases hopened with ⟨e', opened', rfl, he, hrest⟩
          rw [Prod.mk.injEq] at he
          simp only [accept, he.1]
          split
          · exact congrArg (fun o => Except.ok (offset + k, o)) hrest
          · rfl

/-- A step of a state that is some bytes further on is the same step further on. -/
theorem step_moved {source' : List Char} {k : Nat} (h : g'.outline = g.outlineFrom k) :
    (g'.step source' t).map outline =
      ((g.step source t).mapError (Fault.moved k)).map (outlineFrom k) := by
  have hoffset : g'.offset = g.offset + k := congrArg Prod.fst h
  -- The token is as long for both, so the distance between them stays.
  refine map_bind_moved (accept_moved h) fun a' a hview => ?_
  have hopened := congrArg Prod.snd hview
  simp only [outline, outlineFrom] at hopened
  simp only [Except.map, Except.mapError, outline, outlineFrom, hoffset, hopened,
    Nat.add_right_comm]

/-- A step depends on no more than the outline of a state. -/
theorem step_congr {source' : List Char} (h : g.outline = g'.outline) :
    (g.step source t).map outline = (g'.step source' t).map outline := by
  rw [step_moved (k := 0) h, mapError_moved_zero]
  rfl

end Step

section Run

variable {source source' done : List Char} {ts : List Token} {g g' : Growth} {f : Fault}

/-- All offsets are places after any number of tokens. -/
theorem Placed.run (hplaced : g.Placed done) (h : ts.foldlM (Growth.step source) g = .ok g') :
    g'.Placed (done ++ ts.flatMap Token.raw) := by
  -- What has been read grows by each token, so it is not fixed in the induction.
  induction ts generalizing g done with
  | nil =>
      rcases Except.ok.inj h with rfl
      rwa [List.flatMap_nil, List.append_nil]
  | cons t ts ih =>
      rw [List.foldlM_cons] at h
      rcases bind_eq_ok_iff.1 h with ⟨next, hstep, hrun⟩
      rw [List.flatMap_cons, ← List.append_assoc]
      exact ih (hplaced.step hstep) hrun

/-- The fault of a run lies at a place in what the run was given. -/
theorem Placed.isCut_of_run_error (hplaced : g.Placed done)
    (h : ts.foldlM (Growth.step source) g = .error f) :
    Text.IsCut (done ++ ts.flatMap Token.raw) f.offset := by
  induction ts generalizing g done with
  | nil => simp [pure, Except.pure] at h
  | cons t ts ih =>
      rw [List.flatMap_cons, ← List.append_assoc]
      rw [List.foldlM_cons] at h
      rcases bind_eq_error_iff.1 h with hstep | ⟨next, hstep, hrun⟩
      -- The tokens behind the fault were never looked at.
      · exact (hplaced.isCut_of_step_error hstep).append _
      · exact ih (hplaced.step hstep) hrun

/-- A fault at the end lies there or where an open element started. -/
theorem Placed.isCut_of_finish_error (hplaced : g.Placed done) {failure : Option Unterminated}
    (h : g.finish failure = .error f) : Text.IsCut done f.offset := by
  unfold finish at h
  split at h
  · rw [← Except.error.inj h, ← List.append_nil done, hplaced.offset]
    exact Text.isCut_byteSize done []
  · rename_i e opened hopened
    rw [← Except.error.inj h]
    exact hplaced.opened e (by rw [hopened]; exact List.mem_cons_self)
  · simp at h

/-- A run that starts some bytes further on is the same run further on. -/
theorem run_moved {k : Nat} (h : g'.outline = g.outlineFrom k) :
    (ts.foldlM (step source') g').map outline =
      ((ts.foldlM (step source) g).mapError (Fault.moved k)).map (outlineFrom k) := by
  induction ts generalizing g g' with
  | nil => exact congrArg Except.ok h
  | cons t ts ih =>
      rw [List.foldlM_cons, List.foldlM_cons]
      exact map_bind_moved (step_moved h) fun _ _ hnext => ih hnext

/-- A run depends on no more than the outline it starts from. -/
theorem run_congr (h : g.outline = g'.outline) :
    (ts.foldlM (step source) g).map outline = (ts.foldlM (step source') g').map outline := by
  rw [run_moved (k := 0) h, mapError_moved_zero]
  rfl

/-- A reading ends the same way some bytes further on. -/
theorem finish_moved {k : Nat} (h : g'.outline = g.outlineFrom k)
    (failure : Option Unterminated) :
    (g'.finish failure).map (fun _ => ()) =
      ((g.finish failure).mapError (Fault.moved k)).map fun _ => () := by
  rcases g with ⟨offset, opened, nodes⟩
  rcases g' with ⟨offset', opened', nodes'⟩
  simp only [outline, outlineFrom, Prod.mk.injEq] at h
  rcases h with ⟨rfl, hopened⟩
  cases failure with
  -- The token that is not terminated starts where the reading has got to.
  | some failure => rfl
  | none =>
      cases opened with
      | nil =>
          rw [List.map_nil, List.map_eq_nil_iff] at hopened
          rw [hopened]
          rfl
      | cons e opened =>
          rw [List.map_cons, List.map_eq_cons_iff] at hopened
          rcases hopened with ⟨e', opened', rfl, he, _⟩
          rw [Prod.mk.injEq] at he
          simp only [finish, Except.map, Except.mapError, Fault.moved, he.1, he.2]

/-- How a reading ends depends on no more than the outline. -/
theorem finish_congr (h : g.outline = g'.outline) (failure : Option Unterminated) :
    (g.finish failure).map (fun _ => ()) = (g'.finish failure).map fun _ => () := by
  rw [finish_moved (k := 0) h, mapError_moved_zero]

end Run

end Growth

/-- The tokens of a text are the beginning of it. -/
theorem exists_raw_cut (cs : List Char) :
    ∃ rest, cs = (cut cs).tokens.flatMap Token.raw ++ rest := by
  fun_induction cut cs with
  | case1 => exact ⟨[], rfl⟩
  | case2 cs hcs failure hn => exact ⟨cs, rfl⟩
  | case3 cs hcs t rest hn hlt after ih =>
      rcases ih with ⟨tail, htail⟩
      exact ⟨tail, by rw [List.flatMap_cons, List.append_assoc, ← htail]; exact eq_of_next hn⟩

/-- A fault lies between two characters of the markup. -/
theorem isCut_of_read_error {source : List Char} {f : Fault} (h : read source = .error f) :
    Text.IsCut (Text.dropMark source) f.offset := by
  rcases exists_raw_cut (Text.dropMark source) with ⟨rest, hrest⟩
  rw [hrest]
  refine Text.IsCut.append ?_ rest
  rcases bind_eq_error_iff.1 h with hrun | ⟨g, hrun, hfinish⟩
  · exact Growth.placed_empty.isCut_of_run_error hrun
  · exact (Growth.placed_empty.run hrun).isCut_of_finish_error hfinish

/-- Two readings of the same tokens accept together or have the same fault,
    whatever text the end tags are looked up in. -/
theorem read_congr {source source' : List Char} (h : Text.dropMark source = Text.dropMark source') :
    (read source).map (fun _ => ()) = (read source').map fun _ => () := by
  rw [read, read, ← h]
  exact map_bind_congr (Growth.run_congr rfl) fun _ _ hview => Growth.finish_congr hview _

/-- A text is refused for the fault of its reading, with the location looked up in the text. -/
theorem parse_eq_error_iff_read {source : String} {m : Malformed} :
    Document.parse .faithful source = .error m ↔
      ∃ f, read source.toList = .error f ∧ m = f.toMalformed source.toList := by
  simp only [Document.parse, Document.parseNodes]
  cases read source.toList with
  | error fault => simp [Except.mapError, Except.map, eq_comm]
  | ok nodes => simp [Except.mapError, Except.map]

/-- The location that is reported for a text without a byte order mark is behind
    what stands before the fault. -/
theorem exists_of_parse_error {source : String} {m : Malformed}
    (hmark : source.toList.head? ≠ some '\uFEFF')
    (h : Document.parse .faithful source = .error m) :
    ∃ f before after, read source.toList = .error f ∧ source.toList = before ++ after ∧
      f.offset = Text.byteSize before ∧ m.detail = f.defect.message ∧
      m.location = Location.behind before := by
  rcases parse_eq_error_iff_read.1 h with ⟨f, hread, rfl⟩
  -- Without a mark the offset counts from the start of the text itself.
  have hcut := isCut_of_read_error hread
  rw [Text.dropMark_of_unmarked hmark] at hcut
  rcases hcut with ⟨before, after, hsource, hsize⟩
  refine ⟨f, before, after, hread, hsource, hsize.symm, rfl, ?_⟩
  change Location.ofOffset source.toList f.offset = _
  rw [hsource, ← hsize, Location.ofOffset_byteSize]

end Faithful

end SoleRoot

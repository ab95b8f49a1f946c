import SoleRoot.Proofs.Faithful.Rereading

/-!
# Joining Texts

What a tree is read as that has texts side by side.

A tree that was read can have them, since what stood between two texts may have
been dropped, and they are read as one when the tree has been written. `joinAll`
is what becomes of the tree then: at every level neighbouring texts are put
together. This changes nothing of what is written, it leaves no texts side by
side, and it keeps every event that is no text. What is left to see is that two
texts without fault have none when they are put together. That holds because the
check of references looks no further than the semicolon of each.

## Main definitions

* `joinBefore`: A node in front of others.
* `join`, `joinAll`: A tree with its neighbouring texts put together.

## Theorems

* `writeAll_joinAll`: Joining texts changes nothing of what is written.
* `apartAll_joinAll`: It leaves no texts side by side.
* `check_append`: Texts without fault can be put together.
* `rereads_joinAll`: Joined texts are read again if their parts are.
* `read_writeAll_join`: Reading what was written joins texts, and no more.
* `mem_flattenAll_joinAll`: Joining texts keeps every other event.
-/

namespace SoleRoot

namespace Faithful

/-- A node in front of others, put together with the first if both are texts. -/
def joinBefore : Node → List Node → List Node
  | .text a, .text b :: ns => .text (a ++ b) :: ns
  | n, ns => n :: ns

mutual

/-- A node with the neighbouring texts inside it put together. -/
def join : Node → Node
  | .element tag children => .element tag (joinAll children)
  | .text content => .text content
  | .comment content => .comment content
  | .cdata content => .cdata content

/-- Some nodes with the neighbouring texts among them and inside them put
    together. -/
def joinAll : List Node → List Node
  | [] => []
  | n :: ns => joinBefore (join n) (joinAll ns)

end

/-- Two nodes are joined if both are texts, and else stay as they are. -/
theorem joinBefore_cases (n : Node) (ns : List Node) :
    (∃ a b ms, n = .text a ∧ ns = .text b :: ms ∧ joinBefore n ns = .text (a ++ b) :: ms) ∨
      (joinBefore n ns = n :: ns ∧
        (isTextNode n = true → ∀ m ∈ ns.head?, isTextNode m = false)) := by
  unfold joinBefore
  split
  · rename_i a b ms
    exact .inl ⟨a, b, ms, rfl, rfl, rfl⟩
  · -- The pattern did not match, so one of the two is no text.
    rename_i hnot
    refine .inr ⟨rfl, fun hn m hm => ?_⟩
    cases n with
    | text a =>
        cases m with
        | text b =>
            rcases List.head?_eq_some_iff.1 hm with ⟨ms, hms⟩
            exact absurd hms (hnot a b ms rfl)
        | _ => rfl
    | _ => exact Bool.noConfusion hn

theorem writeAll_joinBefore (n : Node) (ns : List Node) :
    writeAll (joinBefore n ns) = write n ++ writeAll ns := by
  rcases joinBefore_cases n ns with ⟨a, b, ms, rfl, rfl, h⟩ | ⟨h, _⟩
  · simp only [h, writeAll, write, String.toList_append, List.append_assoc]
  · rw [h, writeAll]

theorem apartAll_joinBefore {n : Node} {ns : List Node} (hn : apart n) (hns : apartAll ns) :
    apartAll (joinBefore n ns) := by
  rcases joinBefore_cases n ns with ⟨a, b, ms, rfl, rfl, h⟩ | ⟨h, hnext⟩
  · rw [apartAll] at hns
    rw [h, apartAll]
    exact ⟨by rw [apart] <;> simp, hns.2⟩
  · rw [h, apartAll]
    exact ⟨hn, hnext, hns⟩

theorem isEmpty_joinAll (ns : List Node) : (joinAll ns).isEmpty = ns.isEmpty := by
  cases ns with
  | nil => rw [joinAll]
  | cons n ns =>
      rw [joinAll]
      rcases joinBefore_cases (join n) (joinAll ns) with ⟨a, b, ms, _, _, h⟩ | ⟨h, _⟩
      · rw [h]
        rfl
      · rw [h]
        rfl

mutual

theorem write_join (n : Node) : write (join n) = write n := by
  match n with
  | .element tag children =>
      rw [join, write, write, isEmpty_joinAll, writeAll_joinAll children]
  | .text _ | .comment _ | .cdata _ => rw [join]

/-- Joining texts changes nothing of what is written. -/
theorem writeAll_joinAll (ns : List Node) : writeAll (joinAll ns) = writeAll ns := by
  match ns with
  | [] => rw [joinAll]
  | n :: ns => rw [joinAll, writeAll_joinBefore, write_join n, writeAll_joinAll ns, writeAll]

end

mutual

theorem apart_join (n : Node) : apart (join n) := by
  match n with
  | .element tag children =>
      rw [join, apart]
      exact apartAll_joinAll children
  | .text _ | .comment _ | .cdata _ => simp [join, apart]

/-- Joining texts leaves none side by side. -/
theorem apartAll_joinAll (ns : List Node) : apartAll (joinAll ns) := by
  match ns with
  | [] => simp [joinAll, apartAll]
  | n :: ns =>
      rw [joinAll]
      exact apartAll_joinBefore (apart_join n) (apartAll_joinAll ns)

end

/-- Whether a name is known does not depend on where it stands. -/
theorem checkName_shift {start : Nat} {name : List Char} (h : checkName start name = .ok ())
    (start' : Nat) : checkName start' name = .ok () := by
  -- The place is told in failures only.
  unfold checkName at h ⊢
  split at h
  · exact h
  · split at h
    · rename_i hknown
      rw [if_pos hknown]
    · simp at h

/-- Neither does whether the references of a text are. -/
theorem checkFrom_shift {stop start : Nat} {cs : List Char} (h : checkFrom stop start cs = .ok ())
    (stop' start' : Nat) : checkFrom stop' start' cs = .ok () := by
  induction cs generalizing start start' with
  | nil => rfl
  | cons c cs ih =>
      rw [checkFrom] at h ⊢
      -- Only an ampersand asks for something.
      by_cases hc : c = '&'
      · rw [if_pos hc] at h ⊢
        split at h
        · rename_i behind hdrop
          rcases bind_eq_ok_iff.1 h with ⟨u, hname, hrest⟩
          exact bind_eq_ok_iff.2 ⟨u, checkName_shift hname start', ih hrest _⟩
        · simp at h
      · rw [if_neg hc] at h ⊢
        exact ih h _

theorem checkFrom_append {stop start stop' start' : Nat} {a b : List Char}
    (ha : checkFrom stop start a = .ok ()) (hb : checkFrom stop' start' b = .ok ()) :
    checkFrom stop start (a ++ b) = .ok () := by
  induction a generalizing start with
  | nil => exact checkFrom_shift hb stop start
  | cons c a ih =>
      rw [checkFrom] at ha
      rw [List.cons_append, checkFrom]
      by_cases hc : c = '&'
      · rw [if_pos hc] at ha ⊢
        split at ha
        · rename_i behind hdrop
          -- The name ends at its semicolon, so it is the same in front of more text.
          have hrun := List.takeWhile_append_dropWhile
            (p := fun c : Char => c ≠ '&' && c ≠ ';') (l := a)
          rw [hdrop] at hrun
          have hname : ∀ d ∈ a.takeWhile (fun c => c ≠ '&' && c ≠ ';'),
              (decide (d ≠ '&') && decide (d ≠ ';')) = true := fun d hd => by
            have hchar := List.mem_takeWhile_imp hd
            exact hchar
          have hstop : ∀ d ∈ (';' :: (behind ++ b)).head?,
              (decide (d ≠ '&') && decide (d ≠ ';')) = false :=
            Text.forall_mem_head?_cons.2 rfl
          have htake := Text.takeWhile_append_stop hname hstop
          have hdrop' := Text.dropWhile_append_stop hname hstop
          rw [← List.cons_append, ← List.append_assoc, hrun] at htake hdrop'
          rw [hdrop', htake]
          rcases bind_eq_ok_iff.1 ha with ⟨u, hcheck, hrest⟩
          exact bind_eq_ok_iff.2 ⟨u, hcheck, ih hrest⟩
        · simp at ha
      · rw [if_neg hc] at ha ⊢
        exact ih ha

/-- Texts whose references are known can be put together. -/
theorem check_append {a b : List Char} (ha : check a = .ok ()) (hb : check b = .ok ()) :
    check (a ++ b) = .ok () :=
  checkFrom_shift (checkFrom_append ha hb) _ _

/-- A text run has no opening angle bracket. -/
theorem not_mem_of_whole_text {content : List Char} (h : (Token.text content).Whole) :
    '<' ∉ content := by
  -- A run with a bracket in front would have been cut as markup, and behind the first character a
  -- run ends at one.
  by_cases hhead : content.head? = some '<'
  · have hnot := isText_of_next h.next_raw hhead
    exact Bool.noConfusion hnot
  · have hnext := h.next_raw
    change next content = _ at hnext
    rw [next_of_ne_angle hhead] at hnext
    simp only [Except.ok.injEq, Prod.mk.injEq, Token.text.injEq] at hnext
    intro hmem
    have hall := List.dropWhile_eq_nil_iff.1 hnext.2 '<' hmem
    simp at hall

theorem rereads_text_append {a b : String} (ha : (Event.text a).Rereads)
    (hb : (Event.text b).Rereads) : (Event.text (a ++ b)).Rereads := by
  -- The first text is not empty, so neither is the whole.
  have hne : a.toList ≠ [] := ha.whole.raw_ne_nil
  refine rereads_text (fun h => hne ?_) ?_ ?_
  · have htext := congrArg String.toList h
    rw [String.toList_append] at htext
    exact (List.append_eq_nil_iff.1 htext).1
  · rw [String.toList_append, List.mem_append]
    rintro (hmem | hmem)
    · exact not_mem_of_whole_text ha.whole hmem
    · exact not_mem_of_whole_text hb.whole hmem
  · rw [String.toList_append]
    exact check_append ha.valid hb.valid

theorem rereads_joinBefore {n : Node} {ns : List Node} (hn : ∀ e ∈ flatten n, e.Rereads)
    (hns : ∀ e ∈ flattenAll ns, e.Rereads) : ∀ e ∈ flattenAll (joinBefore n ns), e.Rereads := by
  rcases joinBefore_cases n ns with ⟨a, b, ms, rfl, rfl, h⟩ | ⟨h, _⟩
  · rw [flatten] at hn
    rw [flattenAll_cons, flatten, List.cons_append, List.nil_append] at hns
    rw [h, flattenAll_cons, flatten]
    refine List.forall_mem_cons.2 ⟨?_, fun e he => hns e (List.mem_cons_of_mem _ he)⟩
    exact rereads_text_append (hn _ List.mem_cons_self) (hns _ List.mem_cons_self)
  · rw [h, flattenAll_cons]
    exact List.forall_mem_append.2 ⟨hn, hns⟩

mutual

theorem rereads_join (n : Node) (h : ∀ e ∈ flatten n, e.Rereads) :
    ∀ e ∈ flatten (join n), e.Rereads := by
  match n with
  | .element tag children =>
      rw [join]
      -- An element without a tag at its end has nothing inside to be joined.
      by_cases hsingle : (tag.selfClosing && children.isEmpty) = true
      · rw [flatten, if_pos hsingle] at h
        rw [flatten, isEmpty_joinAll, if_pos hsingle]
        exact h
      · rw [flatten, if_neg hsingle, List.forall_mem_cons, List.forall_mem_append] at h
        rw [flatten, isEmpty_joinAll, if_neg hsingle, List.forall_mem_cons, List.forall_mem_append]
        exact ⟨h.1, rereads_joinAll children h.2.1, h.2.2⟩
  | .text _ | .comment _ | .cdata _ =>
      rw [join]
      exact h

/-- If the events of a tree are read again, then so are those of the tree with its
    texts joined. -/
theorem rereads_joinAll (ns : List Node) (h : ∀ e ∈ flattenAll ns, e.Rereads) :
    ∀ e ∈ flattenAll (joinAll ns), e.Rereads := by
  match ns with
  | [] =>
      rw [joinAll]
      exact h
  | n :: ns =>
      rw [flattenAll_cons, List.forall_mem_append] at h
      rw [joinAll]
      exact rereads_joinBefore (rereads_join n h.1) (rereads_joinAll ns h.2)

end

/-- Reading what was written joins texts, and no more. -/
theorem read_writeAll_join {nodes : List Node} (h : ∀ e ∈ flattenAll nodes, e.Rereads)
    (hmark : (writeAll nodes).head? ≠ some '\uFEFF') :
    read (writeAll nodes) = .ok (joinAll nodes) := by
  rw [← writeAll_joinAll nodes] at hmark ⊢
  exact read_writeAll (rereads_joinAll nodes h) (apartAll_joinAll nodes) hmark

theorem mem_flattenAll_joinBefore {n : Node} {ns : List Node} {e : Event}
    (htext : e.token.isText = false) (h : e ∈ flatten n ∨ e ∈ flattenAll ns) :
    e ∈ flattenAll (joinBefore n ns) := by
  rcases joinBefore_cases n ns with ⟨a, b, ms, rfl, rfl, hjoin⟩ | ⟨hjoin, _⟩
  · -- The events of the two texts are the ones that are lost.
    rw [hjoin, flattenAll_cons]
    rw [flattenAll_cons, flatten, flatten, List.mem_append] at h
    rcases h with h | h | h
    · rw [List.mem_singleton.1 h] at htext
      exact Bool.noConfusion htext
    · rw [List.mem_singleton.1 h] at htext
      exact Bool.noConfusion htext
    · exact List.mem_append_right _ h
  · rw [hjoin, flattenAll_cons, List.mem_append]
    exact h

mutual

theorem mem_flatten_join (n : Node) {e : Event} (htext : e.token.isText = false)
    (h : e ∈ flatten n) : e ∈ flatten (join n) := by
  match n with
  | .element tag children =>
      rw [join]
      by_cases hsingle : (tag.selfClosing && children.isEmpty) = true
      · rw [flatten, if_pos hsingle] at h
        rw [flatten, isEmpty_joinAll, if_pos hsingle]
        exact h
      · rw [flatten, if_neg hsingle, List.mem_cons, List.mem_append] at h
        rw [flatten, isEmpty_joinAll, if_neg hsingle, List.mem_cons, List.mem_append]
        exact h.imp_right (Or.imp_left (mem_flattenAll_joinAll children htext))
  | .text _ | .comment _ | .cdata _ =>
      rw [join]
      exact h

/-- Joining texts keeps every other event. -/
theorem mem_flattenAll_joinAll (ns : List Node) {e : Event} (htext : e.token.isText = false)
    (h : e ∈ flattenAll ns) : e ∈ flattenAll (joinAll ns) := by
  match ns with
  | [] => simp at h
  | n :: ns =>
      rw [flattenAll_cons, List.mem_append] at h
      rw [joinAll]
      exact mem_flattenAll_joinBefore htext
        (h.imp (mem_flatten_join n htext) (mem_flattenAll_joinAll ns htext))

end

end Faithful

end SoleRoot

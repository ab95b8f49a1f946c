import SoleRoot.Faithful.Attributes
import SoleRoot.Proofs.Outcome
import SoleRoot.Proofs.Text.Runs

/-!
# Attribute Clauses

The grammar of what stands behind the name in a start tag, and the proof that
the strict reading accepts exactly this grammar.

A `Clause` is one attribute with everything that belongs to it: the white space
before it, its key, what stands around the equals sign, its quote and its value.
The conditions under which the parts can be told apart again are fields of the
structure. Two things about them are easy to get wrong. The first character of a
key may be anything but white space, an equals sign or a quote included; only
from the second on does an equals sign end the key. And nothing has to stand
between a closing quote and the next key.

`Clauses` is the whole section: the clauses in order and the white space behind
them. `Clauses.Valid` says what a section has to satisfy beyond its grammar.
`exists_declarations_iff` is the result: the strict reading succeeds on a text
exactly if the text is the text of a valid section.

## Main definitions

* `Clause`, `Clause.text`: One attribute as strict markup spells it.
* `Clauses`, `Clauses.text`: The section behind the name.
* `Clauses.Valid`: No key twice, no bracket in a value, known references only.
* `Declaration.parts`, `Clause.parts`: Key, value and quote.

## Theorems

* `nextDeclaration_text`: A clause is read as one declaration.
* `exists_clause_of_nextDeclaration`: A declaration was spelled by a clause.
* `exists_clauses_of_declarations`: What was accepted was a valid section.
* `exists_declarations`: A valid section is accepted.
* `exists_declarations_iff`: The strict reading accepts just the valid sections.
-/

namespace SoleRoot

namespace Faithful

/-- An attribute as strict markup spells it. -/
structure Clause where
  /-- The white space before the key. -/
  lead : List Char
  /-- The first character of the key. -/
  first : Char
  /-- The other characters of the key. -/
  others : List Char
  /-- The white space before the equals sign. -/
  before : List Char
  /-- The white space behind the equals sign. -/
  after : List Char
  quote : Quote
  value : List Char
  lead_space : ∀ c ∈ lead, Text.isXmlSpace c = true
  first_solid : Text.isXmlSpace first = false
  others_key : ∀ c ∈ others, isKeyChar c = true
  before_space : ∀ c ∈ before, Text.isXmlSpace c = true
  after_space : ∀ c ∈ after, Text.isXmlSpace c = true
  quote_free : quote.toChar ∉ value

namespace Clause

def key (c : Clause) : List Char :=
  c.first :: c.others

/-- What stands between key and value. -/
def separator (c : Clause) : List Char :=
  c.before ++ '=' :: c.after

/-- The characters of a clause. -/
def text (c : Clause) : List Char :=
  c.lead ++ c.key ++ c.separator ++ c.quote.toChar :: c.value ++ [c.quote.toChar]

/-- What a declaration keeps of a clause. -/
def parts (c : Clause) : List Char × List Char × Quote :=
  (c.key, c.value, c.quote)

end Clause

/-- What stands behind the name of a start tag, as strict markup spells it. -/
structure Clauses where
  list : List Clause := []
  /-- The white space behind the last clause. -/
  trail : List Char := []
  trail_space : ∀ c ∈ trail, Text.isXmlSpace c = true := by simp

namespace Clauses

/-- The characters of a section. -/
def text (s : Clauses) : List Char :=
  s.list.flatMap Clause.text ++ s.trail

def keys (s : Clauses) : List (List Char) :=
  s.list.map Clause.key

/-- What is asked of a section beyond its grammar. -/
structure Valid (s : Clauses) : Prop where
  keys_nodup : s.keys.Nodup
  no_angle : ∀ c ∈ s.list, '<' ∉ c.value
  references : ∀ c ∈ s.list, check c.value = .ok ()

end Clauses

/-- What a declaration says, its place left out. -/
def Declaration.parts (d : Declaration) : List Char × List Char × Quote :=
  (d.key, d.value, d.quote)

theorem isXmlSpace_toChar (q : Quote) : Text.isXmlSpace q.toChar = false := by
  cases q <;> rfl

theorem isKeyChar_of_isXmlSpace {c : Char} (h : Text.isXmlSpace c = true) :
    isKeyChar c = false := by
  rw [isKeyChar, h, Bool.not_true, Bool.and_false]

theorem Declaration.check_eq_ok_iff {d : Declaration} :
    d.check = .ok () ↔ '<' ∉ d.value ∧ Faithful.check d.value = .ok () := by
  unfold Declaration.check
  split
  · rename_i hangle
    exact ⟨fun h => by simp at h, fun h => absurd hangle h.1⟩
  · rename_i hangle
    rw [mapError_eq_ok_iff]
    exact ⟨fun h => ⟨hangle, h⟩, And.right⟩

/-- The value of a clause is found behind its equals sign. -/
theorem nextValue_text (c : Clause) (stop : Nat) (rest : List Char) :
    nextValue stop (c.after ++ c.quote.toChar :: (c.value ++ c.quote.toChar :: rest)) =
      .ok (c.quote, c.value, rest) := by
  have hhead : ∀ d ∈ (c.quote.toChar :: (c.value ++ c.quote.toChar :: rest)).head?,
      Text.isXmlSpace d = false :=
    Text.forall_mem_head?_cons.2 (isXmlSpace_toChar c.quote)
  rw [nextValue, Text.dropWhile_append_stop c.after_space hhead]
  simp only [Quote.ofChar?_toChar, Text.dropWhile_ne_append c.quote_free,
    Text.takeWhile_ne_append c.quote_free]

theorem eq_of_nextValue {stop : Nat} {cs value rest : List Char} {quote : Quote}
    (h : nextValue stop cs = .ok (quote, value, rest)) :
    ∃ after, (∀ c ∈ after, Text.isXmlSpace c = true) ∧ quote.toChar ∉ value ∧
      cs = after ++ quote.toChar :: (value ++ quote.toChar :: rest) := by
  -- The white space that was skipped is what stands before the opening quote.
  refine ⟨cs.takeWhile Text.isXmlSpace, fun c hc => List.mem_takeWhile_imp hc, ?_⟩
  unfold nextValue at h
  split at h
  · simp at h
  · rename_i c after heq
    split at h
    · simp at h
    · rename_i q hq
      have hc := Quote.toChar_of_ofChar? hq
      split at h
      · simp at h
      · rename_i d rest' hd
        simp only [Except.ok.injEq, Prod.mk.injEq] at h
        rcases h with ⟨rfl, rfl, rfl⟩
        rw [hc]
        refine ⟨Text.not_mem_takeWhile_ne c after, ?_⟩
        rw [← Text.eq_of_dropWhile_ne hd, ← heq, List.takeWhile_append_dropWhile]

/-- A clause is read as one declaration, and nothing behind it is touched. -/
theorem nextDeclaration_text (c : Clause) {seen : List Declaration}
    (hseen : ∀ d ∈ seen, d.key ≠ c.key) (stop : Nat) (rest : List Char) :
    ∃ d, nextDeclaration stop seen (c.text ++ rest) = .ok (some (d, rest)) ∧
      d.parts = c.parts := by
  have htext : c.text ++ rest = c.lead ++ c.first :: (c.others ++ (c.before ++ '=' :: (c.after ++
      c.quote.toChar :: (c.value ++ c.quote.toChar :: rest)))) := by
    simp only [Clause.text, Clause.key, Clause.separator, List.append_assoc, List.cons_append,
      List.nil_append]
  have hfirst : ∀ d ∈ (c.first :: (c.others ++ (c.before ++ '=' :: (c.after ++
      c.quote.toChar :: (c.value ++ c.quote.toChar :: rest))))).head?,
      Text.isXmlSpace d = false :=
    Text.forall_mem_head?_cons.2 c.first_solid
  -- The key ends at the first space or, without one, at the equals sign.
  have hbefore : ∀ d ∈ (c.before ++ '=' :: (c.after ++
      c.quote.toChar :: (c.value ++ c.quote.toChar :: rest))).head?, isKeyChar d = false := by
    cases hb : c.before with
    | nil => exact Text.forall_mem_head?_cons.2 rfl
    | cons e es =>
        have he : e ∈ c.before := by rw [hb]; exact List.mem_cons_self
        exact Text.forall_mem_head?_cons.2 (isKeyChar_of_isXmlSpace (c.before_space e he))
  have hequals : ∀ d ∈ ('=' :: (c.after ++
      c.quote.toChar :: (c.value ++ c.quote.toChar :: rest))).head?,
      Text.isXmlSpace d = false :=
    Text.forall_mem_head?_cons.2 rfl
  have hfind : seen.find? (·.key = c.first :: c.others) = none :=
    List.find?_eq_none.2 fun d hd h => hseen d hd (of_decide_eq_true h)
  -- Each run of the reader ends where the next part of the clause begins.
  rw [htext, nextDeclaration, Text.dropWhile_append_stop c.lead_space hfirst]
  simp only [Text.dropWhile_append_stop c.others_key hbefore,
    Text.takeWhile_append_stop c.others_key hbefore,
    Text.dropWhile_append_stop c.before_space hequals, hfind, nextValue_text]
  exact ⟨_, rfl, rfl⟩

/-- A declaration was spelled by a clause, and its key is a new one. -/
theorem exists_clause_of_nextDeclaration {stop : Nat} {seen : List Declaration}
    {cs rest : List Char} {d : Declaration}
    (h : nextDeclaration stop seen cs = .ok (some (d, rest))) :
    ∃ c : Clause, cs = c.text ++ rest ∧ d.parts = c.parts ∧ ∀ e ∈ seen, e.key ≠ c.key := by
  unfold nextDeclaration at h
  split at h
  · simp at h
  · rename_i first behind hlead
    split at h
    · rename_i afterEquals hbefore
      dsimp only at h
      split at h
      · simp at h
      · rename_i hfind
        rcases bind_eq_ok_iff.1 h with ⟨⟨quote, value, rest'⟩, hv, hd⟩
        simp only [Except.ok.injEq, Option.some.injEq, Prod.mk.injEq] at hd
        rcases hd with ⟨rfl, rfl⟩
        rcases eq_of_nextValue hv with ⟨after, hafter, hquote, rfl⟩
        -- The runs that the reader skipped are the parts of the clause.
        refine ⟨
          { lead := cs.takeWhile Text.isXmlSpace
            first := first
            others := behind.takeWhile isKeyChar
            before := (behind.dropWhile isKeyChar).takeWhile Text.isXmlSpace
            after := after
            quote := quote
            value := value
            lead_space := fun c hc => List.mem_takeWhile_imp hc
            first_solid := Text.not_head_dropWhile first (by rw [hlead]; rfl)
            others_key := fun c hc => List.mem_takeWhile_imp hc
            before_space := fun c hc => List.mem_takeWhile_imp hc
            after_space := hafter
            quote_free := hquote }, ?_, rfl, ?_⟩
        · have hkey : behind.takeWhile isKeyChar ++
              ((behind.dropWhile isKeyChar).takeWhile Text.isXmlSpace ++
                '=' :: (after ++ quote.toChar :: (value ++ quote.toChar :: rest'))) = behind := by
            rw [← hbefore, List.takeWhile_append_dropWhile, List.takeWhile_append_dropWhile]
          calc cs = cs.takeWhile Text.isXmlSpace ++ first :: behind := by
                rw [← hlead, List.takeWhile_append_dropWhile]
            _ = _ := by
                simp only [Clause.text, Clause.key, Clause.separator, List.append_assoc,
                  List.cons_append, List.nil_append, hkey]
        · intro e he hkey
          have hne := List.find?_eq_none.1 hfind e he
          exact hne (decide_eq_true hkey)
    · dsimp only at h
      simp at h

theorem nextDeclaration_eq_none_iff (stop : Nat) (seen : List Declaration) {cs : List Char} :
    nextDeclaration stop seen cs = .ok none ↔ ∀ c ∈ cs, Text.isXmlSpace c = true := by
  constructor
  · intro h
    unfold nextDeclaration at h
    split at h
    · rename_i heq
      exact List.dropWhile_eq_nil_iff.1 heq
    · split at h
      · dsimp only at h
        split at h
        · simp at h
        · -- Behind an equals sign there is a declaration, if anything.
          rcases bind_eq_ok_iff.1 h with ⟨p, _, hsome⟩
          simp at hsome
      · dsimp only at h
        simp at h
  · intro h
    rw [nextDeclaration, List.dropWhile_eq_nil_iff.2 h]

/-- The keys of parts are those of the declarations. -/
theorem map_fst_parts (ds : List Declaration) :
    (ds.map Declaration.parts).map Prod.fst = ds.map Declaration.key := by
  rw [List.map_map]
  rfl

theorem exists_clauses_of_declarationsFrom {stop : Nat} {seen ds : List Declaration}
    {cs : List Char} (h : declarationsFrom stop seen cs = .ok ds)
    (hseen : (seen.map Declaration.key).Nodup) :
    ∃ s : Clauses, cs = s.text ∧
      ds.map Declaration.parts = seen.map Declaration.parts ++ s.list.map Clause.parts ∧
      (ds.map Declaration.key).Nodup ∧
      ∀ c ∈ s.list, '<' ∉ c.value ∧ check c.value = .ok () := by
  fun_induction declarationsFrom stop seen cs with
  | case1 seen cs fault hn => simp at h
  | case2 seen cs hn =>
      simp only [Except.ok.injEq] at h
      subst h
      exact ⟨{ trail := cs, trail_space := (nextDeclaration_eq_none_iff _ _).1 hn }, rfl,
        by simp, hseen, by simp⟩
  | case3 seen cs d rest hn hlt fault hcheck => simp at h
  | case4 seen cs d rest hn hlt hcheck ih =>
      rcases exists_clause_of_nextDeclaration hn with ⟨c, hcs, hparts, hnew⟩
      have hkey : d.key = c.key := congrArg Prod.fst hparts
      have hvalue : d.value = c.value := congrArg (fun p => p.2.1) hparts
      -- The invariant: the keys that were seen are distinct, this one included.
      have hnodup : ((seen ++ [d]).map Declaration.key).Nodup := by
        rw [List.map_append, List.map_cons, List.map_nil, List.nodup_append]
        refine ⟨hseen, by simp, fun k hk k' hk' => ?_⟩
        rcases List.mem_map.1 hk with ⟨e, he, rfl⟩
        rw [List.mem_singleton.1 hk', hkey]
        exact hnew e he
      -- The clause stands in front of the section that is left.
      rcases ih h hnodup with ⟨s, rfl, hds, hkeys, hvalid⟩
      refine ⟨{ s with list := c :: s.list }, ?_, ?_, hkeys, ?_⟩
      · rw [hcs, Clauses.text, Clauses.text, List.flatMap_cons, List.append_assoc]
      · rw [hds, List.map_append, List.append_assoc, List.map_cons, List.map_nil, hparts,
          List.map_cons, List.singleton_append]
      · intro e he
        rcases List.mem_cons.1 he with rfl | he
        · rw [← hvalue]
          exact Declaration.check_eq_ok_iff.1 hcheck
        · exact hvalid e he

/-- What the strict reading accepts is the text of a valid section, and the
    declarations are its clauses one for one. -/
theorem exists_clauses_of_declarations {nameSize : Nat} {cs : List Char} {ds : List Declaration}
    (h : declarations nameSize cs = .ok ds) :
    ∃ s : Clauses, cs = s.text ∧ s.Valid ∧
      ds.map Declaration.parts = s.list.map Clause.parts := by
  rcases exists_clauses_of_declarationsFrom h List.nodup_nil with ⟨s, hcs, hparts, hkeys, hvalid⟩
  rw [List.map_nil, List.nil_append] at hparts
  refine ⟨s, hcs, ⟨?_, fun c hc => (hvalid c hc).1, fun c hc => (hvalid c hc).2⟩, hparts⟩
  -- The keys of the clauses are those of the declarations, which are distinct.
  have hfst : s.keys = ds.map Declaration.key := by
    rw [← map_fst_parts, hparts, List.map_map]
    rfl
  rw [hfst]
  exact hkeys

theorem exists_declarationsFrom (stop : Nat) {list : List Clause} {trail : List Char}
    (htrail : ∀ c ∈ trail, Text.isXmlSpace c = true) {seen : List Declaration}
    (hkeys : (seen.map Declaration.key ++ list.map Clause.key).Nodup)
    (hvalid : ∀ c ∈ list, '<' ∉ c.value ∧ check c.value = .ok ()) :
    ∃ ds, declarationsFrom stop seen (list.flatMap Clause.text ++ trail) = .ok ds := by
  induction list generalizing seen with
  | nil =>
      -- Only white space is left, and the reader stops.
      refine ⟨seen, ?_⟩
      have hn := (nextDeclaration_eq_none_iff stop seen).2 htrail
      rw [List.flatMap_nil, List.nil_append, declarationsFrom]
      split
      · simp_all
      · rfl
      · simp_all
  | cons c list ih =>
      have hseen : ∀ d ∈ seen, d.key ≠ c.key := fun d hd => by
        refine (List.nodup_append.1 hkeys).2.2 _ (List.mem_map_of_mem hd) _ ?_
        exact List.mem_cons_self
      rcases nextDeclaration_text c hseen stop
        (list.flatMap Clause.text ++ trail) with ⟨d, hd, hparts⟩
      have hcheck : d.check = .ok () := by
        have hvalue : d.value = c.value := congrArg (fun p => p.2.1) hparts
        rw [Declaration.check_eq_ok_iff, hvalue]
        exact hvalid c List.mem_cons_self
      -- The key moves from those that are left to those that were seen.
      have hkeys' : ((seen ++ [d]).map Declaration.key ++ list.map Clause.key).Nodup := by
        have hkey : d.key = c.key := congrArg Prod.fst hparts
        simpa [hkey] using hkeys
      rcases ih hkeys' fun e he => hvalid e (List.mem_cons_of_mem c he) with ⟨ds, hds⟩
      refine ⟨ds, ?_⟩
      rw [List.flatMap_cons, List.append_assoc, declarationsFrom]
      split
      · simp_all
      · simp_all
      · rename_i d' rest' heq
        rw [hd] at heq
        simp only [Except.ok.injEq, Option.some.injEq, Prod.mk.injEq] at heq
        rcases heq with ⟨rfl, rfl⟩
        simp only [hcheck, hds]

/-- A valid section is accepted. -/
theorem exists_declarations (nameSize : Nat) {s : Clauses} (h : s.Valid) :
    ∃ ds, declarations nameSize s.text = .ok ds :=
  exists_declarationsFrom _ s.trail_space
    (by rw [List.map_nil, List.nil_append]; exact h.keys_nodup)
    fun c hc => ⟨h.no_angle c hc, h.references c hc⟩

/-- The strict reading accepts just the valid sections. -/
theorem exists_declarations_iff (nameSize : Nat) {cs : List Char} :
    (∃ ds, declarations nameSize cs = .ok ds) ↔ ∃ s : Clauses, cs = s.text ∧ s.Valid := by
  constructor
  · rintro ⟨ds, hds⟩
    rcases exists_clauses_of_declarations hds with ⟨s, hcs, hvalid, _⟩
    exact ⟨s, hcs, hvalid⟩
  · rintro ⟨s, rfl, hvalid⟩
    exact exists_declarations nameSize hvalid

end Faithful

end SoleRoot

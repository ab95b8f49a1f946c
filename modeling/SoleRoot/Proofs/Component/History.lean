import Mathlib.Data.List.Induction
import Mathlib.Data.List.Nodup
import SoleRoot.Proofs.Json.Objects
import SoleRoot.Settings.Reader

/-!
# Registries and Their Histories

What a registry holds, told by what was done to it.

A registry is a list that is used as a map, and it is filled in several ways: a name
at a time, many at once, from pairs that take the place of what was there, and from
an object, be it a text or a value. Its history is the list of all pairs that were given to it
since it was last replaced, with every repetition. `run_eq_ofList` says that a
registry is what its history makes of it, however the pairs came; the rest is then
about histories alone. The names stand in the order of their first pairs, and the
module of a name is that of its last pair.

`exchange_cases` is the only place where the search for a name is opened. A name that
has no module is put behind the others; one that has a module is found at its first
place, and nothing before or behind it changes.

## Main definitions

* `Step`, `run`: What can be done to a registry, and what comes of it.
* `membersOfText`, `membersOfValue?`: The members of an object of strings, in order.
* `history`: The pairs given since a registry was last replaced.
* `Remembers`: A registry holds what a history says.
* `Exchanged`: An insertion replaces a module, and nothing else changes.

## Theorems

* `exchange_cases`: What an insertion does.
* `names_ofList`, `get?_ofList`: The registry of a list of pairs.
* `run_eq_ofList`: A registry is the registry of its history.
* `ofText_eq_ok_iff`, `ofValue_eq_ok_iff`: The registry of an object is that of its
  members in order.
* `run_remembers`: After any run a registry holds what its history says.
-/

namespace SoleRoot

open Json

namespace Registry

section Exchange

/-- What an insertion does: it appends a name, or replaces the module at the name's
    first place. -/
theorem exchange_cases (r : Registry) (name module : String) :
    (name ∉ r.names ∧ r.exchange name module = (none, ⟨r.entries ++ [⟨name, module⟩]⟩)) ∨
      ∃ before replaced after, r.entries = before ++ ⟨name, replaced⟩ :: after ∧
        name ∉ before.map Import.name ∧
        r.exchange name module = (some replaced, ⟨before ++ ⟨name, module⟩ :: after⟩) := by
  rcases r with ⟨entries⟩
  simp only [exchange, names]
  induction entries with
  | nil => exact .inl ⟨List.not_mem_nil, rfl⟩
  | cons i is ih =>
      by_cases hname : i.name = name
      · -- The name is here.
        subst hname
        refine .inr ⟨[], i.module, is, rfl, List.not_mem_nil, ?_⟩
        rw [exchangeEntry, if_pos rfl]
        rfl
      · -- It is further on, or nowhere.
        simp only [exchangeEntry, if_neg hname, List.map_cons, List.mem_cons, not_or]
        rcases ih with ⟨hmem, heq⟩ | ⟨before, replaced, after, hentries, hmem, heq⟩
        · refine .inl ⟨⟨Ne.symm hname, hmem⟩, ?_⟩
          simp only [Prod.mk.injEq, mk.injEq] at heq
          rw [heq.1, heq.2, List.cons_append]
        · refine .inr ⟨i :: before, replaced, after, by rw [hentries, List.cons_append], ?_, ?_⟩
          · simp only [List.map_cons, List.mem_cons, not_or]
            exact ⟨Ne.symm hname, hmem⟩
          · simp only [Prod.mk.injEq, mk.injEq] at heq
            rw [heq.1, heq.2, List.cons_append]

/-- The module of a name is found at the name's first place. -/
theorem get?_eq_lookup (r : Registry) (name : String) :
    r.get? name = (r.entries.map fun i => (i.name, i.module)).lookup name := by
  rcases r with ⟨entries⟩
  unfold get?
  induction entries with
  | nil => rfl
  | cons i is ih =>
      rw [List.map_cons, List.lookup_cons, List.find?_cons]
      by_cases hname : i.name = name
      · subst hname
        simp
      · rw [beq_eq_false_iff_ne.2 hname, beq_eq_false_iff_ne.2 (Ne.symm hname)]
        exact ih

/-- A name has no module before its first place. -/
theorem lookup_of_not_mem {is : List Import} {name : String} (h : name ∉ is.map Import.name) :
    (is.map fun i => (i.name, i.module)).lookup name = none := by
  rw [List.lookup_eq_none_iff]
  intro p hp
  rcases List.mem_map.1 hp with ⟨i, hi, rfl⟩
  rw [bne_iff_ne]
  rintro rfl
  exact h (List.mem_map.2 ⟨i, hi, rfl⟩)

/-- An insertion says which module it replaces. -/
theorem fst_exchange (r : Registry) (name module : String) :
    (r.exchange name module).1 = r.get? name := by
  rw [get?_eq_lookup]
  rcases r.exchange_cases name module with
    ⟨hmem, heq⟩ | ⟨before, replaced, after, hentries, hmem, heq⟩
  · rw [heq, lookup_of_not_mem hmem]
  · rw [heq, hentries, List.map_append, List.lookup_append, lookup_of_not_mem hmem, Option.none_or,
      List.map_cons, List.lookup_cons_self]

/-- After an insertion the name has the new module, and all others have theirs. -/
theorem get?_insert (r : Registry) (name module other : String) :
    (r.insert name module).get? other = if other = name then some module else r.get? other := by
  rw [insert, get?_eq_lookup, get?_eq_lookup]
  rcases r.exchange_cases name module with
    ⟨hmem, heq⟩ | ⟨before, replaced, after, hentries, hmem, heq⟩
  · rw [heq, List.map_append, List.lookup_append]
    split
    · rename_i h
      rw [h, lookup_of_not_mem hmem, Option.none_or, List.map_cons, List.lookup_cons_self]
    · rename_i h
      rw [List.map_cons, List.map_nil, List.lookup_cons, beq_eq_false_iff_ne.2 h, List.lookup_nil,
        Option.or_none]
  -- The name is found where it was, with the new module.
  · rw [heq, hentries, List.map_append, List.map_append, List.lookup_append, List.lookup_append,
      List.map_cons, List.map_cons]
    split
    · rename_i h
      rw [h, lookup_of_not_mem hmem, Option.none_or, List.lookup_cons_self]
    · rename_i h
      rw [List.lookup_cons, List.lookup_cons, beq_eq_false_iff_ne.2 h]

/-- A new name goes behind the others, and an old one stays in its place. -/
theorem names_insert (r : Registry) (name module : String) :
    (r.insert name module).names = if name ∈ r.names then r.names else r.names ++ [name] := by
  rw [insert]
  rcases r.exchange_cases name module with ⟨hmem, heq⟩ | ⟨before, replaced, after, hentries, _, heq⟩
  · rw [if_neg hmem, heq, names, List.map_append]
    rfl
  · have hnames : r.names = before.map Import.name ++ name :: after.map Import.name := by
      rw [names, hentries, List.map_append, List.map_cons]
    rw [hnames, if_pos (List.mem_append_right _ (List.mem_cons_self ..)), heq, names,
      List.map_append, List.map_cons]

/-- No insertion makes a name stand twice. -/
theorem nodup_names_insert {r : Registry} (h : r.names.Nodup) (name module : String) :
    (r.insert name module).names.Nodup := by
  rw [names_insert]
  split
  · exact h
  · rename_i hmem
    exact List.nodup_append.2 ⟨h, List.nodup_singleton name, fun a ha b hb hab =>
      hmem (List.mem_singleton.1 hb ▸ hab ▸ ha)⟩

/-- An insertion changes the entry of its name, or appends one. -/
theorem entries_insert {r : Registry} (h : r.names.Nodup) (name module : String) :
    (r.insert name module).entries =
      r.entries.map (fun i => if i.name = name then ⟨name, module⟩ else i) ++
        if name ∈ r.names then [] else [⟨name, module⟩] := by
  have hother {is : List Import} (his : name ∉ is.map Import.name) :
      is.map (fun i => if i.name = name then ⟨name, module⟩ else i) = is := by
    refine (List.map_congr_left fun i hi => ?_).trans is.map_id
    refine if_neg ?_
    rintro rfl
    exact his (List.mem_map.2 ⟨i, hi, rfl⟩)
  rw [insert]
  rcases r.exchange_cases name module with
    ⟨hmem, heq⟩ | ⟨before, replaced, after, hentries, hmem, heq⟩
  · rw [if_neg hmem, heq, hother hmem]
  · have hnames : r.names = before.map Import.name ++ name :: after.map Import.name := by
      rw [names, hentries, List.map_append, List.map_cons]
    -- No name stands twice, so there is no second place to change.
    have hafter : name ∉ after.map Import.name := by
      rw [hnames, List.nodup_append] at h
      exact (List.nodup_cons.1 h.2.1).1
    rw [hnames, if_pos (List.mem_append_right _ (List.mem_cons_self ..)), heq, hentries,
      List.map_append, List.map_cons, hother hmem, hother hafter, if_pos rfl, List.append_nil]

end Exchange

section Lists

/-- Pairs may be collected in parts. -/
theorem ofList_append (ps qs : List (String × String)) :
    ofList (ps ++ qs) = (ofList ps).extend qs :=
  List.foldl_append ..

theorem ofList_snoc (ps : List (String × String)) (p : String × String) :
    ofList (ps ++ [p]) = (ofList ps).insert p.1 p.2 :=
  ofList_append ps [p]

/-- The names of a registry stand in the order of their first pairs. -/
theorem names_ofList (ps : List (String × String)) :
    (ofList ps).names = (ps.map Prod.fst).eraseDups := by
  induction ps using List.reverseRecOn with
  | nil => rfl
  | append_singleton ps p ih =>
      rw [ofList_snoc, names_insert, ih, List.map_append, List.eraseDups_append]
      -- The last pair adds a name or finds it there.
      by_cases hmem : p.1 ∈ ps.map Prod.fst
      · rw [if_pos (List.mem_eraseDups.2 hmem)]
        simp only [List.map_cons, List.map_nil, List.removeAll, List.elem_eq_mem,
          List.filter_cons, hmem, decide_true, Bool.not_true, Bool.false_eq_true, if_false,
          List.filter_nil, List.eraseDups_nil, List.append_nil]
      · rw [if_neg fun h => hmem (List.mem_eraseDups.1 h)]
        simp only [List.map_cons, List.map_nil, List.removeAll, List.elem_eq_mem,
          List.filter_cons, hmem, decide_false, Bool.not_false, if_true, List.filter_nil]
        rfl

/-- No name stands twice in a registry. -/
theorem nodup_names_ofList (ps : List (String × String)) : (ofList ps).names.Nodup := by
  induction ps using List.reverseRecOn with
  | nil => exact List.nodup_nil
  | append_singleton ps p ih =>
      rw [ofList_snoc]
      exact nodup_names_insert ih p.1 p.2

/-- The module of a name is that of its last pair. -/
theorem get?_ofList (ps : List (String × String)) (name : String) :
    (ofList ps).get? name = ps.reverse.lookup name := by
  induction ps using List.reverseRecOn with
  | nil => rfl
  | append_singleton ps p ih =>
      rw [ofList_snoc, get?_insert, ih, List.reverse_append, List.reverse_singleton,
        List.singleton_append, List.lookup_cons]
      by_cases hname : name = p.1
      · rw [if_pos hname, beq_iff_eq.2 hname]
      · rw [if_neg hname, beq_eq_false_iff_ne.2 hname]

end Lists

section Runs

/-- The members of a text that is an object of strings, as they stand there. -/
def membersOfText (source : String) : Except Complaint (List (String × String)) :=
  readAll (readStrings title moduleTitle (fun ms m => ms ++ [m]) []) source

/-- The string of a member whose value is one, with its key. -/
def stringOf? : String × Value → Option (String × String)
  | (name, .string module) => some (name, module)
  | _ => none

/-- The members of a value that is an object of strings. -/
def membersOfValue? : Value → Option (List (String × String))
  | .object members => members.mapM stringOf?
  | _ => none

/-- What can be done to a registry. -/
inductive Step where
  /-- A module for a name. -/
  | insert (name module : String)
  /-- Modules for names, in order. -/
  | extend (pairs : List (String × String))
  /-- A new registry in place of the old one, from pairs. -/
  | collect (pairs : List (String × String))
  /-- A new registry in place of the old one, from a text; a text that is no object of
      strings changes nothing. -/
  | load (source : String)
  /-- The same from a value that is already there. -/
  | take (value : Value)

namespace Step

/-- What a step makes of a registry. -/
def apply : Step → Registry → Registry
  | insert name module, r => r.insert name module
  | extend pairs, r => r.extend pairs
  | collect pairs, _ => ofList pairs
  | load source, r =>
    match ofText source with
    | .ok loaded => loaded
    | .error _ => r
  | take value, r =>
    match ofValue value with
    | .ok taken => taken
    | .error _ => r

/-- What a step makes of a history. -/
def record : Step → List (String × String) → List (String × String)
  | insert name module, ps => ps ++ [(name, module)]
  | extend pairs, ps => ps ++ pairs
  | collect pairs, _ => pairs
  | load source, ps =>
    match membersOfText source with
    | .ok members => members
    | .error _ => ps
  | take value, ps => (membersOfValue? value).getD ps

end Step

/-- The registry after some steps, from one without imports on. -/
def run (steps : List Step) : Registry :=
  steps.foldl (fun r s => s.apply r) {}

/-- The pairs that were given since the registry was last replaced. -/
def history (steps : List Step) : List (String × String) :=
  steps.foldl (fun ps s => s.record ps) []

/-- A text has members exactly if it is an object of strings. -/
theorem membersOfText_eq_ok_iff {source : String} {ms : List (String × String)} :
    membersOfText source = .ok ms ↔ ObjectText source.toList ms := by
  -- Appending one by one gives the list as it is.
  have hfold (ms start : List (String × String)) :
      ms.foldl (fun ms m => ms ++ [m]) start = start ++ ms := by
    induction ms generalizing start with
    | nil => rw [List.foldl_nil, List.append_nil]
    | cons m ms ih => rw [List.foldl_cons, ih, List.append_assoc, List.singleton_append]
  rw [membersOfText, readAll_readStrings_eq_ok_iff]
  constructor
  · rintro ⟨ms', htext, rfl⟩
    rwa [hfold, List.nil_append]
  · intro htext
    exact ⟨ms, htext, (hfold ms []).symm⟩

/-- A registry reads a member as any fold over strings does. -/
theorem readMember_eq_readStringMember :
    readMember = readStringMember moduleTitle fun r m => r.insert m.1 m.2 :=
  rfl

/-- A registry is read by folding its insertions over the members. -/
theorem read_eq_readStrings :
    read = readStrings title moduleTitle (fun r m => r.insert m.1 m.2) {} := by
  funext c
  cases hkind : readKind c with
  | error fault => simp only [read, readStrings, hkind, bind, Except.bind]
  | ok found =>
      rcases found with ⟨kind, c'⟩
      cases kind with
      | map =>
          simp only [read, readStrings, hkind, bind, Except.bind, readMember_eq_readStringMember]
      | _ => simp only [read, readStrings, hkind, bind, Except.bind]

/-- The registry of a text is that of its members in order. -/
theorem ofText_eq_ok_iff {source : String} {r : Registry} :
    ofText source = .ok r ↔ ∃ ms, ObjectText source.toList ms ∧ r = ofList ms := by
  rw [ofText, read_eq_readStrings, readAll_readStrings_eq_ok_iff]
  rfl

/-- Only a member whose value is a string has one. -/
theorem stringOf?_eq_some_iff {m : String × Value} {p : String × String} :
    stringOf? m = some p ↔ m = stringMember p := by
  rcases m with ⟨name, value⟩
  rcases p with ⟨name', module⟩
  cases value with
  | string module' => simp [stringOf?, stringMember]
  | _ => simp [stringOf?, stringMember]

/-- Members have strings if each of them has one. -/
theorem mapM_stringOf?_eq_some_iff {members : List (String × Value)}
    {ms : List (String × String)} :
    members.mapM stringOf? = some ms ↔ members = ms.map stringMember := by
  induction members generalizing ms with
  | nil => simp [eq_comm]
  | cons m members ih =>
      simp only [List.mapM_cons, bind, pure, Option.bind_eq_some_iff, stringOf?_eq_some_iff, ih]
      constructor
      · rintro ⟨p, rfl, ms', rfl, hms⟩
        rw [← Option.some.inj hms, List.map_cons]
      · intro hms
        rcases List.map_eq_cons_iff.1 hms.symm with ⟨p, ms', rfl, hm, hms'⟩
        exact ⟨p, hm.symm, ms', hms'.symm, rfl⟩

/-- A value has members exactly if it is an object of strings. -/
theorem membersOfValue?_eq_some_iff {value : Value} {ms : List (String × String)} :
    membersOfValue? value = some ms ↔ value = .object (ms.map stringMember) := by
  cases value with
  | object members => rw [membersOfValue?, mapM_stringOf?_eq_some_iff, Value.object.injEq]
  | _ => simp [membersOfValue?]

/-- An object is taken as the registry that its members are collected to. -/
theorem toOption_ofMembers (members : List (String × Value)) (start : Registry) :
    (ofMembers start members).toOption = (members.mapM stringOf?).map start.extend := by
  induction members generalizing start with
  | nil => rfl
  | cons m members ih =>
      rcases m with ⟨name, value⟩
      cases value with
      | string module =>
          rw [ofMembers, ih, List.mapM_cons]
          simp only [stringOf?, bind, pure, Option.bind_some]
          cases members.mapM stringOf? <;> rfl
      | _ => rfl

/-- A value is taken as the registry of its members, if it has any. -/
theorem toOption_ofValue (value : Value) :
    (ofValue value).toOption = (membersOfValue? value).map ofList := by
  cases value with
  | object members => exact toOption_ofMembers members {}
  | _ => rfl

/-- The registry of a value is that of its members in order. -/
theorem ofValue_eq_ok_iff {value : Value} {r : Registry} :
    ofValue value = .ok r ↔ ∃ ms, value = .object (ms.map stringMember) ∧ r = ofList ms := by
  rw [← toOption_eq_some_iff, toOption_ofValue, Option.map_eq_some_iff]
  simp only [membersOfValue?_eq_some_iff]
  exact exists_congr fun ms => and_congr_right fun _ => eq_comm

/-- A step does to a registry what it does to its history. -/
theorem apply_ofList (s : Step) (ps : List (String × String)) :
    s.apply (ofList ps) = ofList (s.record ps) := by
  cases s with
  | insert name module => exact (ofList_snoc ps (name, module)).symm
  | extend pairs => exact (ofList_append ps pairs).symm
  | collect pairs => rfl
  | load source =>
      rw [Step.apply, Step.record]
      cases hmembers : membersOfText source with
      | ok ms =>
          rw [ofText_eq_ok_iff.2 ⟨ms, membersOfText_eq_ok_iff.1 hmembers, rfl⟩]
      | error complaint =>
          -- What is no object of strings is not read as a registry either.
          cases htext : ofText source with
          | error complaint' => rfl
          | ok r =>
              rcases ofText_eq_ok_iff.1 htext with ⟨ms, hms, _⟩
              rw [membersOfText_eq_ok_iff.2 hms] at hmembers
              exact absurd hmembers (by simp)
  | take value =>
      -- A value is taken exactly if it has members, so both sides decide alike.
      have hvalue := toOption_ofValue value
      rw [Step.apply, Step.record]
      cases htaken : ofValue value with
      | ok r =>
          rw [htaken] at hvalue
          rcases Option.map_eq_some_iff.1 hvalue.symm with ⟨ms, hms, rfl⟩
          rw [hms, Option.getD_some]
      | error cause =>
          rw [htaken] at hvalue
          rw [Option.map_eq_none_iff.1 hvalue.symm, Option.getD_none]

/-- A registry is the registry of its history. -/
theorem run_eq_ofList (steps : List Step) : run steps = ofList (history steps) := by
  -- The steps may go on from any history, since they do so after the first.
  have hfrom (ps : List (String × String)) :
      steps.foldl (fun r s => s.apply r) (ofList ps) =
        ofList (steps.foldl (fun ps s => s.record ps) ps) := by
    induction steps generalizing ps with
    | nil => rfl
    | cons s steps ih => rw [List.foldl_cons, apply_ofList, ih, List.foldl_cons]
  exact hfrom []

/-- Whether a registry holds what a history says. -/
structure Remembers (r : Registry) (pairs : List (String × String)) : Prop where
  nodup : r.names.Nodup
  size : r.size = r.names.length
  names : r.names = (pairs.map Prod.fst).eraseDups
  get? : ∀ name, r.get? name = pairs.reverse.lookup name

/-- Whether inserting a module for a name gives back the module that the name had, and
    changes neither another entry nor the place of any. -/
structure Exchanged (r : Registry) (name module : String) : Prop where
  replaced : (r.exchange name module).1 = r.get? name
  entries : (r.exchange name module).2.entries =
    r.entries.map (fun i => if i.name = name then ⟨name, module⟩ else i) ++
      if name ∈ r.names then [] else [⟨name, module⟩]
  get? : ∀ other, (r.exchange name module).2.get? other =
    if other = name then some module else r.get? other

/-- The registry of a list of pairs holds what the list says. -/
theorem remembers_ofList (ps : List (String × String)) : (ofList ps).Remembers ps where
  nodup := nodup_names_ofList ps
  size := (List.length_map _).symm
  names := names_ofList ps
  get? := get?_ofList ps

/-- An insertion replaces one module at most where no name stands twice. -/
theorem exchanged_of_nodup {r : Registry} (h : r.names.Nodup) (name module : String) :
    r.Exchanged name module where
  replaced := r.fst_exchange name module
  entries := entries_insert h name module
  get? := r.get?_insert name module

/-- After any run a registry holds what its history says, and the next insertion
    replaces one module at most. A text is read as a registry if it is an object of
    strings, and then as its members would be collected in the order of the text; it is
    the same with a value. -/
theorem run_remembers (steps : List Step) :
    (run steps).Remembers (history steps) ∧
      (∀ name module, (run steps).Exchanged name module) ∧
      (∀ source r, ofText source = .ok r ↔ ∃ ms, ObjectText source.toList ms ∧ r = ofList ms) ∧
      (∀ source ms, membersOfText source = .ok ms ↔ ObjectText source.toList ms) ∧
      ∀ value r, ofValue value = .ok r ↔
        ∃ ms, value = .object (ms.map stringMember) ∧ r = ofList ms := by
  -- The registry of a run is that of its history, so it is enough to know those.
  have hremembers := remembers_ofList (history steps)
  rw [← run_eq_ofList] at hremembers
  exact ⟨hremembers, exchanged_of_nodup hremembers.nodup, fun _ _ => ofText_eq_ok_iff,
    fun _ _ => membersOfText_eq_ok_iff, fun _ _ => ofValue_eq_ok_iff⟩

end Runs

end Registry

end SoleRoot

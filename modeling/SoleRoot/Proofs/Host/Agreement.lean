import SoleRoot.Host.Session
import SoleRoot.Proofs.Component.History
import SoleRoot.Proofs.Json.Written

/-!
# Requests and Their Texts

A host may ask for the same thing in two ways, and gets the same.

A host hands over its settings part by part: flags, the name of a dialect, and a value
for the components. It could also write all of them down as an object and have its text
read. The two ways have nothing in common but the dialects and the registry: one looks
at a value, the other at characters, each has defaults of its own for what is missing,
and each has its own ways to fail.

Both are a fold over the members of the object, in which a member may be refused.
`Settings.put?` is the step. That the reader of texts takes this step for each member
is shown member by member, and that the parts of a request add up to the same is a
matter of four members, each there or not.

## Main definitions

* `Request.members`, `Request.text`: A request as an object, and its text.
* `Settings.put?`: What a member makes of settings.

## Theorems

* `answers_readMode`, `answers_readRegistry`: Parts that are no records.
* `foldlM_members`: A request is the fold over its members.
* `ofText_text_iff`: The text of a request is read as the request.
* `settings_agree`: All ways to ask for something agree.
-/

namespace SoleRoot

open Json

section Parts

theorem answers_readMode (name : String) (rest : List Char) :
    Answers Mode.read ((Value.string name).write ++ rest) (Mode.ofName? name) rest := by
  -- The name is told from the others only when all of it has been read.
  have hresolve : Answers (fun c => (Mode.resolve name c).map fun mode => (mode, c)) rest
      (Mode.ofName? name) rest := by
    cases hmode : Mode.ofName? name with
    | none =>
        intro k
        exact ⟨_, by simp only [Mode.resolve, hmode]; rfl⟩
    | some mode =>
        intro k
        exact ⟨k, by simp only [Mode.resolve, hmode]; rfl⟩
  rw [Value.write, writeString_append]
  refine hresolve.behind fun k => ?_
  have hskip (text : List Char) : (⟨k, '"' :: text⟩ : Cursor).skipSpace = ⟨k, '"' :: text⟩ := rfl
  rcases takes_readQuoted (spells_flatMap_writeChar name.toList rest) (k + '"'.utf8Size) with
    ⟨k', hread⟩
  refine ⟨k', ?_⟩
  simp only [Mode.read, hskip, Cursor.peek?, List.head?_cons, if_true, Cursor.next, hread, bind,
    Except.bind]
  cases Mode.resolve name ⟨k', rest⟩ <;> rfl

theorem answers_readRegistry (v : Value) (rest : List Char) :
    Answers Registry.read (v.write ++ rest) (Registry.ofValue v).toOption rest := by
  rw [Registry.read_eq_readStrings]
  -- A value is a registry just if it is an object of strings.
  refine answers_readStrings rest ?_ ?_
  · intro ms hms
    rw [Registry.ofValue_eq_ok_iff.2 ⟨ms, hms, rfl⟩]
    rfl
  · intro hother
    cases hvalue : Registry.ofValue v with
    | error cause => rfl
    | ok r =>
        rcases Registry.ofValue_eq_ok_iff.1 hvalue with ⟨ms, hms, _⟩
        exact absurd hms (hother ms)

/-- A field reads what its value is read as. -/
theorem answers_of {α β : Type} {read : Reader β} {text rest : List Char} {b? : Option β}
    (h : Answers read text b? rest) (name : String) (otherNames : List String) (required : Bool)
    (put : α → β → α) (a : α) :
    Answers ((Field.of name otherNames required read put).read a) text (b?.map (put a)) rest :=
  h.map (put a)

end Parts

namespace Settings

/-- What a member makes of settings, unless its value is refused. -/
def put? (s : Settings) : String × Value → Option Settings
  | ("vOnce", .boolean b) => some { s with once := b }
  | ("vPre", .boolean b) => some { s with pre := b }
  | ("mode", .string name) => (Mode.ofName? name).map fun mode => { s with mode }
  | ("components", v) => (Registry.ofValue v).toOption.map fun components => { s with components }
  | _ => none

end Settings

namespace Host

namespace Request

/-- A member, if there is a value for it. -/
def member (key : String) (v? : Option Value) : List (String × Value) :=
  v?.toList.map fun v => (key, v)

/-- The members of the object that says the same as a request. -/
def members (r : Request) : List (String × Value) :=
  member "vOnce" (r.once.map .boolean) ++ member "vPre" (r.pre.map .boolean) ++
    member "mode" (r.mode.map .string) ++ member "components" r.components

/-- The text of the object that says the same as a request. -/
def text (r : Request) : String :=
  (Value.object r.members).compact

theorem map_fst_member_sublist (key : String) (v? : Option Value) :
    ((member key v?).map Prod.fst).Sublist [key] := by
  cases v? with
  | none => exact List.nil_sublist [key]
  | some v => exact List.Sublist.refl [key]

theorem nodup_members (r : Request) : (r.members.map Prod.fst).Nodup := by
  -- They are some of four, in their order.
  have hsub : (r.members.map Prod.fst).Sublist
      (["vOnce"] ++ ["vPre"] ++ ["mode"] ++ ["components"]) := by
    simp only [members, List.map_append]
    exact (((map_fst_member_sublist _ _).append (map_fst_member_sublist _ _)).append
      (map_fst_member_sublist _ _)).append (map_fst_member_sublist _ _)
  exact hsub.nodup (by decide)

theorem mem_member {key : String} {v? : Option Value} {m : String × Value}
    (h : m ∈ member key v?) : ∃ v, v? = some v ∧ m = (key, v) := by
  rcases List.mem_map.1 h with ⟨v, hv, rfl⟩
  exact ⟨v, Option.mem_toList.1 hv, rfl⟩

/-- Each member of a request has a field, which reads what is written of it. -/
theorem exists_field {r : Request} {m : String × Value} (h : m ∈ r.members) :
    ∃ f, Settings.shape.fields.find? (·.answersTo m.1) = some f ∧ f.name = m.1 ∧
      ∀ s rest, Answers (f.read s) (m.2.write ++ rest) (Settings.put? s m) rest := by
  simp only [members, List.mem_append] at h
  rcases h with ((h | h) | h) | h
  all_goals rcases mem_member h with ⟨v, hv, rfl⟩
  · rcases Option.map_eq_some_iff.1 hv with ⟨b, _, rfl⟩
    exact ⟨_, rfl, rfl, fun s rest => answers_of (answers_readBoolean b rest) _ _ _ _ s⟩
  · rcases Option.map_eq_some_iff.1 hv with ⟨b, _, rfl⟩
    exact ⟨_, rfl, rfl, fun s rest => answers_of (answers_readBoolean b rest) _ _ _ _ s⟩
  · rcases Option.map_eq_some_iff.1 hv with ⟨name, _, rfl⟩
    exact ⟨_, rfl, rfl, fun s rest => answers_of (answers_readMode name rest) _ _ _ _ s⟩
  · exact ⟨_, rfl, rfl, fun s rest => answers_of (answers_readRegistry v rest) _ _ _ _ s⟩

/-- A request is the fold over its members. -/
theorem foldlM_members (r : Request) :
    r.members.foldlM Settings.put? {} = r.settings.toOption := by
  have honce (s : Settings) : (member "vOnce" (r.once.map .boolean)).foldlM Settings.put? s =
      some { s with once := r.once.getD s.once } := by
    cases r.once <;> rfl
  have hpre (s : Settings) : (member "vPre" (r.pre.map .boolean)).foldlM Settings.put? s =
      some { s with pre := r.pre.getD s.pre } := by
    cases r.pre <;> rfl
  -- From the mode on a member may be refused.
  have hmode (once pre : Bool) :
      (member "mode" (r.mode.map .string)).foldlM Settings.put? { once, pre } =
        r.dialect.toOption.map fun mode => { once, pre, mode } := by
    rw [dialect]
    cases r.mode with
    | none => rfl
    | some name =>
        simp only [member, Option.map_some, Option.toList_some, List.map_cons, List.map_nil,
          List.foldlM_cons, List.foldlM_nil, Settings.put?]
        cases Mode.ofName? name <;> rfl
  have hcomponents (once pre : Bool) (mode : Mode) :
      (member "components" r.components).foldlM Settings.put? { once, pre, mode } =
        r.registry.toOption.map fun components => ⟨once, pre, mode, components⟩ := by
    rw [registry]
    cases r.components with
    | none => rfl
    | some v =>
        simp only [member, Option.toList_some, List.map_cons, List.map_nil, List.foldlM_cons,
          List.foldlM_nil, Settings.put?]
        cases Registry.ofValue v <;> rfl
  simp only [members, List.foldlM_append, honce, hpre, bind, Option.bind_some, hmode, settings]
  cases r.dialect with
  | error refusal => rfl
  | ok mode =>
      simp only [Except.toOption, Option.map_some, Option.bind_some, hcomponents, Except.bind]
      cases r.registry <;> rfl

/-- The text of a request is read as the request. -/
theorem ofText_text_iff {r : Request} {s : Settings} :
    Settings.ofText r.text = .ok s ↔ r.settings = .ok s := by
  -- A reader that answers is right about every text of a value.
  have hread : Answers Settings.shape.read ((Value.object r.members).write ++ [])
      (r.members.foldlM Settings.put? Settings.shape.start) [] :=
    answers_read r.nodup_members (fun _ => exists_field) (by decide) []
  have htext : r.text.toList = (Value.object r.members).write ++ [] := by
    rw [text, Value.compact, String.toList_ofList, List.append_nil]
  rw [← htext] at hread
  have hstart : r.members.foldlM Settings.put? Settings.shape.start = r.settings.toOption :=
    foldlM_members r
  rw [hstart] at hread
  rw [Settings.ofText, readAll_eq_ok_iff hread, toOption_eq_some_iff]

section Outcomes

variable {r : Request} {s : Settings} {refusal : Refusal}

/-- Settings have no function on text of their own. -/
theorem preprocessor?_toOptions (s : Settings) : (s.toOptions none).preprocessor? = none := by
  simp only [Options.preprocessor?, Settings.toOptions, Settings.hook, Option.map_none]
  split
  · rfl
  · rfl

/-- Without a function on text, what fails is the text. -/
theorem status_of_transform_error {source : String} {f : Failure}
    (h : SoleRoot.transform (s.toOptions none) source = .error f) :
    (Refusal.failure f).status = .invalidArgument := by
  rw [SoleRoot.transform, preprocessor?_toOptions, bind_eq_error_iff] at h
  rcases h with h | ⟨_, _, h⟩
  · rw [resolve, bind_eq_error_iff] at h
    rcases h with h | ⟨_, _, h⟩
    · simp [preprocess] at h
    · rcases bind_eq_error_iff.1 h with h | ⟨_, _, h⟩
      · rcases mapError_eq_error_iff.1 h with ⟨m, _, rfl⟩
        rfl
      · simp at h
  · simp at h

/-- Which part of a request is refused: the dialect, or else the components. -/
theorem refused_cases (h : r.settings = .error refusal) :
    (∃ name, r.mode = some name ∧ Mode.ofName? name = none ∧ refusal = .mode name) ∨
      ((∀ name, r.mode = some name → Mode.ofName? name ≠ none) ∧
        ∃ v cause, r.components = some v ∧ Registry.ofValue v = .error cause ∧
          refusal = .components cause) := by
  rcases bind_eq_error_iff.1 h with h | ⟨mode, hmode, h⟩
  · rw [dialect] at h
    split at h
    · simp at h
    · rename_i name hname
      split at h
      · simp at h
      · rename_i hnone
        exact .inl ⟨name, hname, hnone, (Except.error.inj h).symm⟩
  · -- There is a dialect, so it is the components.
    have hknown : ∀ name, r.mode = some name → Mode.ofName? name ≠ none := by
      intro name hname hnone
      rw [dialect, hname] at hmode
      simp [hnone] at hmode
    rcases bind_eq_error_iff.1 h with h | ⟨_, _, h⟩
    · rw [registry] at h
      split at h
      · simp at h
      · rename_i v hv
        rcases mapError_eq_error_iff.1 h with ⟨cause, hvalue, rfl⟩
        exact .inr ⟨hknown, v, cause, hv, hvalue, rfl⟩
    · simp at h

end Outcomes

/-- All ways to ask for something agree. The text of a request stands for the settings of
    the request, and if there are any, a session, a request that is made once, and the
    transformation itself make the same of every text or refuse it alike. A request
    without settings is refused for its dialect if that is unknown, and else for its
    components. -/
theorem settings_agree (r : Request) :
    (∀ s, r.settings = .ok s ↔ Settings.ofText r.text = .ok s) ∧
      (∀ s, r.settings = .ok s → ∃ session, Session.open? r = .ok session ∧
        ∀ source, session.transform source = r.transform source ∧
          match SoleRoot.transform (s.toOptions none) source with
          | .ok output => r.transform source = .ok output
          | .error f => ∃ refusal, r.transform source = .error refusal ∧
              refusal.status = .invalidArgument ∧ refusal.message = f.message) ∧
      ∀ refusal, r.settings = .error refusal →
        refusal.status = .invalidArgument ∧ Session.open? r = .error refusal ∧
          (∀ source, r.transform source = .error refusal) ∧
          ((∃ name, r.mode = some name ∧ Mode.ofName? name = none ∧ refusal.message =
              "Unknown mode '" ++ name ++ "': expected \"permissive\" or \"faithful\"") ∨
            ((∀ name, r.mode = some name → Mode.ofName? name ≠ none) ∧
              ∃ v cause, r.components = some v ∧ Registry.ofValue v = .error cause ∧
                refusal.message = "Invalid components map: " ++ cause.message)) := by
  refine ⟨fun s => ofText_text_iff.symm, ?_, ?_⟩
  · intro s hs
    refine ⟨⟨s.toOptions none⟩, by rw [Session.open?, hs]; rfl, fun source => ⟨?_, ?_⟩⟩
    · simp only [Session.transform, transform, hs, bind, Except.bind]
    -- A session passes the settings on as they are, so only the way in which it fails is its own.
    · cases hresult : SoleRoot.transform (s.toOptions none) source with
      | ok output => simp only [transform, hs, hresult, bind, Except.bind, Except.mapError]
      | error f =>
          refine ⟨.failure f, ?_, status_of_transform_error hresult, rfl⟩
          simp only [transform, hs, hresult, bind, Except.bind, Except.mapError]
  · intro refusal hrefused
    -- Nothing is read of a text before the settings are known.
    have hopen : Session.open? r = .error refusal := by
      rw [Session.open?, hrefused]
      rfl
    have htransform (source : String) : r.transform source = .error refusal := by
      simp only [transform, hrefused, bind, Except.bind]
    rcases refused_cases hrefused with ⟨name, hname, hnone, rfl⟩ |
      ⟨hknown, v, cause, hv, hvalue, rfl⟩
    · exact ⟨rfl, hopen, htransform, .inl ⟨name, hname, hnone, rfl⟩⟩
    · exact ⟨rfl, hopen, htransform, .inr ⟨hknown, v, cause, hv, hvalue, rfl⟩⟩

end Request

end Host

end SoleRoot

import SoleRoot.Proofs.Host.Agreement
import SoleRoot.Proofs.Json.Records
import SoleRoot.Settings.Printer

/-!
# Settings That Were Written Down

Registries and settings are read back from the texts that they are written as.

A registry is written as one member per import, and a reader puts one member after the
other into an empty registry. That gives back the same imports in the same order because
no name stands twice: each insertion appends. Registries with a name that stands twice
would lose an import, but no operation makes one, and `reachable_iff_nodup` says that
there is nothing else that the operations cannot make.

The text of settings is the text of a request that names all of them, but for components
that are not there, and so it is read as this request. A text that somebody else wrote
may say the same in other ways, with other names for the settings, in another order,
with members that mean nothing or as an array. Whatever it is, the registry in it came
from a reader of registries, so what was read of it can be written and read again.

## Main definitions

* `Registry.Reachable`: A registry that operations make.
* `Host.Request.ofSettings`: The request for settings.
* `ReadsBack`: What is written is read back, and then written alike.

## Theorems

* `Registry.reachable_iff_nodup`: Operations make the registries in which no name stands
  twice.
* `Registry.ofText_compact_toValue_iff`: These are the ones that are read back.
* `Settings.nodup_of_ofText`: No name stands twice in settings that were read.
* `readsBack_registry_settings`: Registries and settings are read back.
-/

namespace SoleRoot

open Json

namespace Registry

/-- Whether a registry can be made of one without imports by its operations. -/
def Reachable (r : Registry) : Prop :=
  ∃ steps, run steps = r

/-- The names with their modules, in order. -/
def pairs (r : Registry) : List (String × String) :=
  r.entries.map fun i => (i.name, i.module)

theorem toValue_eq (r : Registry) : r.toValue = .object (r.pairs.map stringMember) := by
  rw [toValue, pairs, List.map_map]
  rfl

/-- If no name stands twice, each insertion appends. -/
theorem ofList_pairs {r : Registry} (h : r.names.Nodup) : ofList r.pairs = r := by
  rcases r with ⟨entries⟩
  induction entries using List.reverseRecOn with
  | nil => rfl
  | append_singleton is i ih =>
      have hnames : (Registry.mk (is ++ [i])).names = (Registry.mk is).names ++ [i.name] :=
        List.map_append
      have hpairs : (Registry.mk (is ++ [i])).pairs =
          (Registry.mk is).pairs ++ [(i.name, i.module)] :=
        List.map_append
      rw [hnames, List.nodup_append] at h
      rcases h with ⟨hnodup, _, hdisjoint⟩
      rw [hpairs, ofList_snoc, ih hnodup, insert]
      rcases (Registry.mk is).exchange_cases i.name i.module with ⟨_, heq⟩ |
        ⟨before, replaced, after, hentries, _⟩
      · rw [heq]
      · -- The name does not stand among those before it.
        have hmem : i.name ∈ (Registry.mk is).names := by
          rw [names, hentries, List.map_append]
          exact List.mem_append_right _ (List.mem_cons_self ..)
        exact absurd rfl (hdisjoint i.name hmem i.name (List.mem_singleton_self _))

/-- Operations make the registries in which no name stands twice. -/
theorem reachable_iff_nodup {r : Registry} : r.Reachable ↔ r.names.Nodup := by
  constructor
  · rintro ⟨steps, rfl⟩
    rw [run_eq_ofList]
    exact nodup_names_ofList _
  · intro h
    exact ⟨[.collect r.pairs], ofList_pairs h⟩

/-- The text of a value is read as the registry that the value is taken as. -/
theorem ofText_compact_iff {v : Value} {r : Registry} :
    ofText v.compact = .ok r ↔ ofValue v = .ok r := by
  have hanswers := answers_readRegistry v []
  rw [List.append_nil] at hanswers
  have htext : v.compact.toList = v.write := String.toList_ofList
  rw [ofText, readAll_eq_ok_iff (htext ▸ hanswers), toOption_eq_some_iff]

/-- The value of a registry is taken as the registry that its pairs are collected to. -/
theorem ofValue_toValue (r : Registry) : ofValue r.toValue = .ok (ofList r.pairs) :=
  ofValue_eq_ok_iff.2 ⟨r.pairs, r.toValue_eq, rfl⟩

/-- A registry is read back from its text exactly if no name stands twice. -/
theorem ofText_compact_toValue_iff {r : Registry} :
    ofText r.toValue.compact = .ok r ↔ r.names.Nodup := by
  rw [ofText_compact_iff, ofValue_toValue, Except.ok.injEq]
  constructor
  · intro h
    rw [← h]
    exact nodup_names_ofList r.pairs
  · exact ofList_pairs

theorem reachable_of_ofText {source : String} {r : Registry} (h : ofText source = .ok r) :
    r.Reachable := by
  rcases ofText_eq_ok_iff.1 h with ⟨ms, _, rfl⟩
  exact reachable_iff_nodup.2 (nodup_names_ofList ms)

/-- No name stands twice in a registry that was read, whatever comes behind it. -/
theorem nodup_of_read {c c' : Cursor} {r : Registry} (h : read c = .ok (r, c')) :
    r.names.Nodup := by
  rw [read_eq_readStrings] at h
  rcases exists_of_readStrings h with ⟨_, ms, _, _, rfl⟩
  exact nodup_names_ofList ms

end Registry

namespace Host

namespace Request

/-- The request for settings: it names all of them, but for components that are not
    there. -/
def ofSettings (s : Settings) : Request where
  once := some s.once
  pre := some s.pre
  mode := some s.mode.name
  components := if s.components.isEmpty then none else some s.components.toValue

/-- Settings are written as the request for them. -/
theorem text_ofSettings (s : Settings) : (ofSettings s).text = s.toValue.compact := by
  have hmembers : member "components" (ofSettings s).components = s.componentMembers := by
    simp only [ofSettings, Settings.componentMembers]
    split
    · rfl
    · rfl
  rw [text, members, hmembers]
  rfl

theorem settings_ofSettings {s : Settings} (h : s.components.names.Nodup) :
    (ofSettings s).settings = .ok s := by
  have hdialect : (ofSettings s).dialect = .ok s.mode := by
    simp only [dialect, ofSettings, Mode.ofName?_name]
  have hregistry : (ofSettings s).registry = .ok s.components := by
    unfold registry ofSettings
    by_cases hempty : s.components.isEmpty
    · -- Without components, those of the start are taken.
      have hentries : s.components = {} :=
        congrArg Registry.mk (List.isEmpty_iff.1 hempty)
      rw [hentries]
      rfl
    · simp only [if_neg hempty, Registry.ofValue_toValue, Registry.ofList_pairs h]
      rfl
  simp only [settings, hdialect, hregistry, bind, Except.bind]
  rfl

end Request

end Host

namespace Settings

theorem ofText_compact_toValue {s : Settings} (h : s.components.names.Nodup) :
    ofText s.toValue.compact = .ok s := by
  rw [← Host.Request.text_ofSettings, Host.Request.ofText_text_iff]
  exact Host.Request.settings_ofSettings h

/-- No name stands twice in settings that were read. -/
theorem nodup_of_ofText {source : String} {s : Settings} (h : ofText source = .ok s) :
    s.components.names.Nodup := by
  rw [ofText, readAll, mapError_eq_ok_iff, bind_eq_ok_iff] at h
  rcases h with ⟨⟨s', c⟩, hread, h⟩
  have hs : s' = s := by
    dsimp only at h
    split at h
    · exact Except.ok.inj h
    · simp [Cursor.failAhead] at h
  subst hs
  refine Shape.of_read (P := fun s => s.components.names.Nodup) List.nodup_nil ?_ hread
  intro f hf
  simp only [shape, List.mem_cons, List.not_mem_nil, or_false] at hf
  -- One field is for the components, and the others leave them as they are.
  rcases hf with rfl | rfl | rfl | rfl
  · exact Field.keeps_of fun s b c c' hs _ => hs
  · exact Field.keeps_of fun s b c c' hs _ => hs
  · exact Field.keeps_of fun s m c c' hs _ => hs
  · exact Field.keeps_of fun s r c c' _ hread => Registry.nodup_of_read hread

end Settings

/-- Whether what is written of certain things is read back, and whatever is read is
    written as a text that is read as the same thing and written as the same text. -/
structure ReadsBack {α : Type} (read : String → Except Complaint α) (write : α → String)
    (Allowed : α → Prop) : Prop where
  back : ∀ a, Allowed a → read (write a) = .ok a
  settled : ∀ source a, read source = .ok a →
    read (write a) = .ok a ∧ (read (write a)).map write = .ok (write a)

/-- If only things that are read back are ever read, then all that is read is settled. -/
theorem ReadsBack.of_back {α : Type} {read : String → Except Complaint α} {write : α → String}
    {Allowed : α → Prop} (hback : ∀ a, Allowed a → read (write a) = .ok a)
    (hread : ∀ source a, read source = .ok a → Allowed a) : ReadsBack read write Allowed where
  back := hback
  settled source a h := by
    have ha := hback a (hread source a h)
    exact ⟨ha, by rw [ha]; rfl⟩

/-- Every registry that operations make is read back from its text, and so are all
    settings with such a registry. Every text that is read as a registry or as settings
    gives one that is, so it needs to be written only once to be settled. -/
theorem readsBack_registry_settings :
    ReadsBack Registry.ofText (fun r => r.toValue.compact) Registry.Reachable ∧
      ReadsBack Settings.ofText (fun s => s.toValue.compact) fun s => s.components.Reachable := by
  constructor
  · exact .of_back
      (fun r hr => Registry.ofText_compact_toValue_iff.2 (Registry.reachable_iff_nodup.1 hr))
      fun _ _ => Registry.reachable_of_ofText
  · exact .of_back
      (fun s hs => Settings.ofText_compact_toValue (Registry.reachable_iff_nodup.1 hs))
      fun _ _ h => Registry.reachable_iff_nodup.2 (Settings.nodup_of_ofText h)

/-- A text of settings may name a setting otherwise, a component again, and what nobody
    asks for, and what it names may have to be escaped. -/
theorem readsBack_registry_settings_loose :
    ∃ s : Settings,
      Settings.ofText ("\x7b\"v_once\": true, \"note\": [1], \"components\": " ++
        "\x7b\"A\": \"a\", \"\\ud83d\\ude00\\\"\": \"\\\\\", \"A\": \"\\u0001\"\x7d\x7d") = .ok s ∧
      s.components = ⟨[⟨"A", "\x01"⟩, ⟨"😀\"", "\\"⟩]⟩ ∧
      Registry.ofText s.components.toValue.compact = .ok s.components ∧
      Settings.ofText s.toValue.compact = .ok s := by
  have hrun : Registry.Reachable ⟨[⟨"A", "\x01"⟩, ⟨"😀\"", "\\"⟩]⟩ :=
    ⟨[.insert "A" "a", .insert "😀\"" "\\", .insert "A" "\x01"], by decide⟩
  refine ⟨⟨true, false, .permissive, ⟨[⟨"A", "\x01"⟩, ⟨"😀\"", "\\"⟩]⟩⟩, ?_, rfl, ?_, ?_⟩
  · cbv
  · exact readsBack_registry_settings.1.back _ hrun
  · exact readsBack_registry_settings.2.back _ hrun

end SoleRoot

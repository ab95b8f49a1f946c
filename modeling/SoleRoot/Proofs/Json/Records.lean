import SoleRoot.Json.Record
import SoleRoot.Proofs.Outcome

/-!
# What All Read Records Have in Common

A property of every record that can be read, whatever the text.

A text may name the fields of a record in any order, leave some of them out, have
members that are no field, or be an array. What is read is still made from the start of
the record by the readers of its fields and by nothing else. So a property that the
start has and that no field's reader breaks is one of every record that is read.

## Main definitions

* `Keeps`: A reader that goes on from a record keeps a property of it.

## Theorems

* `Keeps.foldMembers`: A fold keeps what its step keeps.
* `Shape.of_read`: A record has what its fields keep.
-/

namespace SoleRoot

namespace Json

/-- Whether a reader that goes on from a record keeps a property of it. -/
def Keeps {α : Type} (P : α → Prop) (read : α → Reader α) : Prop :=
  ∀ a c a' c', P a → read a c = .ok (a', c') → P a'

section Members

variable {σ : Type} {P : σ → Prop} {step : σ → String → Reader σ}

/-- A fold keeps what its step keeps. -/
theorem Keeps.foldMembers (h : ∀ key, Keeps P fun s => step s key) (rounds : Nat) (first : Bool) :
    Keeps P (Json.foldMembers step rounds first) := by
  induction rounds generalizing first with
  | zero =>
      intro s c s' c' _ hread
      simp [Json.foldMembers, Cursor.fail] at hread
  | succ rounds ih =>
      intro s c s' c' hs hread
      simp only [Json.foldMembers, bind_eq_ok_iff] at hread
      rcases hread with ⟨⟨key?, c₁⟩, _, hread⟩
      cases key? with
      | none =>
          simp only [Except.ok.injEq, Prod.mk.injEq] at hread
          exact hread.1 ▸ hs
      | some key =>
          simp only [bind_eq_ok_iff] at hread
          rcases hread with ⟨⟨s₁, c₂⟩, hstep, hmore⟩
          -- The step keeps the property, and the other rounds go on from what it made.
          exact ih false s₁ c₂ s' c' (h key s c₁ s₁ c₂ hs hstep) hmore

/-- So does a reader of all members of an object. -/
theorem Keeps.readMembers (h : ∀ key, Keeps P fun s => step s key) :
    Keeps P (Json.readMembers step) :=
  fun s c => Keeps.foldMembers h (c.rest.length + 1) true s c

end Members

section Records

variable {α : Type} {P : α → Prop}

/-- What a field puts into a record has to be such that the property is kept. -/
theorem Field.keeps_of {β : Type} {name : String} {otherNames : List String} {required : Bool}
    {read : Reader β} {put : α → β → α}
    (h : ∀ a b c c', P a → read c = .ok (b, c') → P (put a b)) :
    Keeps P (Field.of name otherNames required read put).read := by
  intro a c a' c' ha hread
  rcases map_eq_ok_iff.1 hread with ⟨⟨b, c₁⟩, hvalue, heq⟩
  simp only [Prod.mk.injEq] at heq
  exact heq.1 ▸ h a b c c₁ ha hvalue

namespace Shape

variable {s : Shape α}

/-- A member is a field's, or nobody asks for it. -/
theorem keeps_readMember (h : ∀ f ∈ s.fields, Keeps P f.read) (key : String) :
    Keeps (fun given : List String × α => P given.2) fun given => s.readMember given key := by
  intro given c given' c' hgiven hread
  unfold readMember at hread
  split at hread
  · simp only [bind_eq_ok_iff] at hread
    rcases hread with ⟨c₁, _, c₂, _, hread⟩
    simp only [Except.ok.injEq, Prod.mk.injEq] at hread
    exact hread.1 ▸ hgiven
  -- The field puts its value into the record, unless it was given before.
  · rename_i f hfield
    dsimp only at hread
    split at hread
    · simp [Cursor.fail] at hread
    · simp only [bind_eq_ok_iff] at hread
      rcases hread with ⟨c₁, _, ⟨a, c₂⟩, hvalue, hread⟩
      simp only [Except.ok.injEq, Prod.mk.injEq] at hread
      rcases hread with ⟨rfl, _⟩
      exact h f (List.mem_of_find?_eq_some hfield) given.2 c₁ a c₂ hgiven hvalue

/-- The fields of an array put into a record what they put into it by name. -/
theorem keeps_readFields {fields : List (Field α)} (h : ∀ f ∈ fields, Keeps P f.read)
    (number : Nat) : Keeps P (s.readFields number fields) := by
  induction fields generalizing number with
  | nil =>
      intro a c a' c' ha hread
      simp only [readFields, Except.ok.injEq, Prod.mk.injEq] at hread
      exact hread.1 ▸ ha
  | cons f fs ih =>
      intro a c a' c' ha hread
      have hfs := ih (fun g hg => h g (List.mem_cons_of_mem _ hg)) (number + 1)
      simp only [readFields, bind_eq_ok_iff] at hread
      rcases hread with ⟨⟨more, c₁⟩, _, hread⟩
      cases more with
      | true =>
          simp only [bind_eq_ok_iff] at hread
          rcases hread with ⟨⟨a₁, c₂⟩, hvalue, hread⟩
          exact hfs a₁ c₂ a' c' (h f (List.mem_cons_self ..) a c₁ a₁ c₂ ha hvalue) hread
      -- The array has ended early, and the fields that are left have their defaults.
      | false =>
          dsimp only at hread
          split at hread
          · simp [Cursor.fail] at hread
          · exact hfs a c₁ a' c' ha hread

variable {a : α} {c c' : Cursor}

/-- A record that is read from an object has what its fields keep. -/
theorem of_readObject (hstart : P s.start) (h : ∀ f ∈ s.fields, Keeps P f.read)
    (hread : s.readObject c = .ok (a, c')) : P a := by
  simp only [readObject, bind_eq_ok_iff] at hread
  rcases hread with ⟨⟨⟨given, a₁⟩, c₁⟩, hmembers, hread⟩
  have ha : P a₁ := Keeps.readMembers (keeps_readMember h) ([], s.start) c _ _ hstart hmembers
  dsimp only at hread
  split at hread
  · simp [Cursor.fail] at hread
  · simp only [Except.ok.injEq, Prod.mk.injEq] at hread
    exact hread.1 ▸ ha

/-- So has one that is read from an array. -/
theorem of_readArray (hstart : P s.start) (h : ∀ f ∈ s.fields, Keeps P f.read)
    (hread : s.readArray c = .ok (a, c')) : P a := by
  simp only [readArray, bind_eq_ok_iff] at hread
  rcases hread with ⟨⟨a₁, c₁⟩, hfields, c₂, _, hread⟩
  simp only [Except.ok.injEq, Prod.mk.injEq] at hread
  exact hread.1 ▸ keeps_readFields h 0 s.start c a₁ c₁ hstart hfields

/-- A record has every property that its start has and that its fields keep. -/
theorem of_read (hstart : P s.start) (h : ∀ f ∈ s.fields, Keeps P f.read)
    (hread : s.read c = .ok (a, c')) : P a := by
  simp only [read, bind_eq_ok_iff] at hread
  rcases hread with ⟨⟨kind, c₁⟩, _, hread⟩
  cases kind with
  | map => exact of_readObject hstart h hread
  | sequence => exact of_readArray hstart h hread
  | _ => simp [wrongKind, Cursor.fail] at hread

end Shape

end Records

end Json

end SoleRoot

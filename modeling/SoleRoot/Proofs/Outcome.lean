import Mathlib

/-!
# Outcomes

When a computation that can fail has succeeded, and when two of them fail alike.

Two computations may differ in what they compute and still decide in the same
way: their outcomes are equal in a view of the results. `map_bind_congr` says that
this goes on if what follows looks at the view only.

## Theorems

* `bind_eq_ok_iff`: Two steps succeed if the first does and then the second.
* `bind_eq_error_iff`: Two steps fail if the first does, or else the second.
* `map_eq_ok_iff`: A view of a result is there if the result is.
* `mapError_eq_ok_iff`, `mapError_eq_error_iff`: Telling a failure in other words makes no
  success of it.
* `toOption_eq_some_iff`: Leaving out why a computation failed makes no success of it.
* `map_bind_moved`: Outcomes that agree in a view go on to agree in a view, even if
  their failures are told in other words.
-/

namespace SoleRoot

variable {ε ε' α β : Type}

/-- Two steps succeed if the first does and then the second. -/
theorem bind_eq_ok_iff {x : Except ε α} {f : α → Except ε β} {b : β} :
    x >>= f = .ok b ↔ ∃ a, x = .ok a ∧ f a = .ok b := by
  cases x with
  | error fault => simp [bind, Except.bind]
  | ok a => simp [bind, Except.bind]

/-- Two steps fail if the first does, or else the second. -/
theorem bind_eq_error_iff {x : Except ε α} {f : α → Except ε β} {fault : ε} :
    x >>= f = .error fault ↔ x = .error fault ∨ ∃ a, x = .ok a ∧ f a = .error fault := by
  cases x with
  | error fault' => simp [bind, Except.bind]
  | ok a => simp [bind, Except.bind]

theorem map_eq_ok_iff {x : Except ε α} {f : α → β} {b : β} :
    x.map f = .ok b ↔ ∃ a, x = .ok a ∧ f a = b := by
  cases x with
  | error fault => simp [Except.map]
  | ok a => simp [Except.map]

/-- Telling a failure in other words makes no success of it. -/
theorem mapError_eq_ok_iff {x : Except ε α} {g : ε → ε'} {a : α} :
    x.mapError g = .ok a ↔ x = .ok a := by
  cases x with
  | error fault => simp [Except.mapError]
  | ok b => simp [Except.mapError]

theorem mapError_eq_error_iff {x : Except ε α} {g : ε → ε'} {fault : ε'} :
    x.mapError g = .error fault ↔ ∃ cause, x = .error cause ∧ g cause = fault := by
  cases x with
  | error cause => simp [Except.mapError]
  | ok a => simp [Except.mapError]

theorem toOption_eq_some_iff {x : Except ε α} {a : α} : x.toOption = some a ↔ x = .ok a := by
  cases x with
  | error fault => simp [Except.toOption]
  | ok b => simp [Except.toOption]

/-- If two computations agree in a view, but for how their failures are told, and
    what follows looks at the view only, then they go on to agree in this way. -/
theorem map_bind_moved {α' β' γ δ : Type} {move : ε → ε} {view : α → γ} {view' : α' → γ}
    {next : β → δ} {next' : β' → δ} {x : Except ε α} {y : Except ε α'} {f : α → Except ε β}
    {g : α' → Except ε β'} (h : x.map view = (y.mapError move).map view')
    (hnext : ∀ a b, view a = view' b → (f a).map next = ((g b).mapError move).map next') :
    (x >>= f).map next = ((y >>= g).mapError move).map next' := by
  cases x with
  | error fault =>
      -- One succeeds if the other does, since a view keeps failures apart from results.
      cases y with
      | error fault' => exact congrArg Except.error (Except.error.inj h)
      | ok b => simp [Except.map, Except.mapError] at h
  | ok a =>
      cases y with
      | error fault' => simp [Except.map, Except.mapError] at h
      | ok b => exact hnext a b (Except.ok.inj h)

/-- Two computations that agree in a view go on to agree if what follows looks at the view only. -/
theorem map_bind_congr {γ δ : Type} {view : α → γ} {view' : β → δ} {x y : Except ε α}
    {f g : α → Except ε β} (h : x.map view = y.map view)
    (hnext : ∀ a b, view a = view b → (f a).map view' = (g b).map view') :
    (x >>= f).map view' = (y >>= g).map view' := by
  have hsame : ∀ {τ : Type} (z : Except ε τ), z.mapError id = z := by
    intro τ z
    cases z <;> rfl
  -- This is the case of failures that are told in the same words.
  rw [← hsame (y >>= g)]
  refine map_bind_moved (by rwa [hsame]) fun a b hview => ?_
  rw [hsame]
  exact hnext a b hview

end SoleRoot

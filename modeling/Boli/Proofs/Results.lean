/-!
# Results and failures

A computation that ends with a result has one at each of its steps.
-/

set_option autoImplicit false

namespace Boli.Results

variable {α β δ ε ζ : Type}

theorem ok_bind (a : α) (f : α → Except ε β) : (Except.ok a >>= f) = f a := rfl

theorem exists_of_bind_eq_ok {r : Except ε α} {f : α → Except ε β} {b : β}
    (h : r >>= f = .ok b) : ∃ a, r = .ok a ∧ f a = .ok b := by
  cases r with
  | error failure => cases h
  | ok a => exact ⟨a, rfl, h⟩

/-- A computation fails at its first step or behind it. -/
theorem bind_eq_error_iff {r : Except ε α} {f : α → Except ε β} {e : ε} :
    r >>= f = .error e ↔ r = .error e ∨ ∃ a, r = .ok a ∧ f a = .error e := by
  constructor
  · intro h
    cases r with
    | error e' =>
      cases h
      exact .inl rfl
    | ok a => exact .inr ⟨a, rfl, h⟩
  · intro h
    rcases h with rfl | ⟨a, rfl, h⟩
    · rfl
    · exact h

theorem mapError_eq_error_iff {r : Except ε α} {f : ε → δ} {e : δ} :
    r.mapError f = .error e ↔ ∃ e', r = .error e' ∧ f e' = e := by
  constructor
  · intro h
    cases r with
    | error e' => exact ⟨e', rfl, Except.error.inj h⟩
    | ok a => cases h
  · intro h
    obtain ⟨e', rfl, rfl⟩ := h
    rfl

theorem exists_of_map_eq_ok {r : Except ε α} {f : α → β} {b : β} (h : f <$> r = .ok b) :
    ∃ a, r = .ok a ∧ f a = b := by
  cases r with
  | error failure => cases h
  | ok a => cases h; exact ⟨a, rfl, rfl⟩

theorem eq_ok_of_mapError {r : Except ε α} {f : ε → δ} {a : α} (h : r.mapError f = .ok a) :
    r = .ok a := by
  cases r with
  | error failure => cases h
  | ok a' => cases h; rfl

theorem eq_ok_of_toOption {r : Except ε α} {a : α} (h : r.toOption = some a) : r = .ok a := by
  cases r with
  | error failure => cases h
  | ok a' => cases h; rfl

theorem mapError_ok (a : α) (f : ε → δ) : (Except.ok a).mapError f = .ok a := rfl

theorem mapError_bind (r : Except ε α) (f : α → Except ε β) (g : ε → δ) :
    (r >>= f).mapError g = r.mapError g >>= fun a => (f a).mapError g := by
  cases r <;> rfl

theorem mapError_id (r : Except ε α) : r.mapError id = r := by cases r <;> rfl

theorem mapError_mapError (r : Except ε α) (f : ε → δ) (g : δ → ζ) :
    (r.mapError f).mapError g = r.mapError (g ∘ f) := by
  cases r <;> rfl

/-- The same value, or failures that are related. -/
inductive SameOr (R : ε → ε → Prop) : Except ε α → Except ε α → Prop where
  | ok (a : α) : SameOr R (.ok a) (.ok a)
  | error {e e' : ε} : R e e' → SameOr R (.error e) (.error e')

end Boli.Results

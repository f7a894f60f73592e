import Boli.Proofs.Emission

/-!
# Recorded kinds

What an expression is rendered as depends on the kinds of its names only (`respects_sameKinds`), and
the kinds that are recorded are those of texts and numbers (`respects_plain`).
-/

set_option autoImplicit false

namespace Boli.Emission

theorem valueKind_binary_eq_string {b : Bindings} {operator : String} {l r : Expression} :
    valueKind b (.binary operator l r) = .string ↔
      valueKind b l = .string ∨ valueKind b r = .string := by
  rw [valueKind]
  split
  next h => exact iff_of_true rfl h
  next h => exact iff_of_false (by decide) h

/-! ## Bindings with the same kinds -/

/-- Bindings that give every name the same kind; a name without one holds a number. -/
def SameKinds (b b' : Bindings) : Prop :=
  ∀ name, valueKind b (.identifier name) = valueKind b' (.identifier name)

theorem SameKinds.valueKind_eq {b b' : Bindings} (h : SameKinds b b') (e : Expression) :
    valueKind b e = valueKind b' e := by
  induction e with
  | number n => rfl
  | text s => rfl
  | identifier name => exact h name
  | binary operator left right ihl ihr => rw [valueKind, valueKind, ihl, ihr]
  | foreign kind data => rfl

theorem SameKinds.expression_eq {b b' : Bindings} (h : SameKinds b b') (t : Target)
    (e : Expression) : expression t b e = expression t b' e := by
  induction e with
  | number n => rfl
  | text s => rfl
  | identifier name => rfl
  | binary operator left right ihl ihr =>
    simp only [expression, asString, h.valueKind_eq, ihl, ihr]
  | foreign kind data => rfl

theorem valueKind_put (b : Bindings) (name name' : String) (kind : ValueKind) :
    valueKind (b.put name kind) (.identifier name') =
      if name = name' then kind else valueKind b (.identifier name') := by
  rw [valueKind, valueKind, Dictionary.get?_put]
  split
  · rfl
  · rfl

theorem respects_sameKinds (t : Target) : Respects t SameKinds where
  expression h e := h.expression_eq t e
  print h e := by rw [h.valueKind_eq]
  declaration h e name value := by rw [h.valueKind_eq]
  put h e name := by
    intro name'
    rw [valueKind_put, valueKind_put, h.valueKind_eq, h name']

/-! ## The kinds that are recorded -/

/-- Every name holds a text or a number. -/
def Plain (b : Bindings) : Prop :=
  ∀ name, valueKind b (.identifier name) = .string ∨ valueKind b (.identifier name) = .number

theorem Plain.valueKind_eq {b : Bindings} (h : Plain b) (e : Expression) :
    valueKind b e = .string ∨ valueKind b e = .number := by
  induction e with
  | number n => exact .inr rfl
  | text s => exact .inl rfl
  | identifier name => exact h name
  | binary operator left right ihl ihr =>
    rw [valueKind]
    split
    · exact .inl rfl
    · exact .inr rfl
  | foreign kind data => exact .inr rfl

theorem Plain.put {b : Bindings} (h : Plain b) (name : String) (e : Expression) :
    Plain (b.put name (valueKind b e)) := by
  intro name'
  rw [valueKind_put]
  split
  · exact h.valueKind_eq e
  · exact h name'

/-- The emitter records no other kinds. -/
theorem respects_plain (t : Target) : Respects t fun b b' => b = b' ∧ Plain b where
  expression h e := by rw [h.1]
  print h e := by rw [h.1]
  declaration h e name value := by rw [h.1]
  put h e name := ⟨by rw [h.1], h.2.put name e⟩

end Boli.Emission

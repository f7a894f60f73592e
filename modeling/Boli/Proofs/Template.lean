import Boli.Target.Catalogue

/-!
# Templates that can be filled

Filling a template fails where a hole asks for a value that is not given. The holes alone decide
whether that can happen (`fits`), and for the targets of the catalogue it never does
(`complete_of_mem_catalogue`).
-/

set_option autoImplicit false

namespace Boli

namespace Template

/-- Whether so many values in order, and values under these names, fill all holes. -/
def fits (count : Nat) (names : List String) : Template → Bool
  | [] => true
  | .text _ :: rest => fits count names rest
  | .next :: rest => decide (0 < count) && fits (count - 1) names rest
  | .named name :: rest => decide (name ∈ names) && fits count names rest

theorem exists_fillFrom {values : List String} {names : Dictionary String String} :
    ∀ {template : Template} {index : Nat},
      template.fits (values.length - index) names.keys = true →
      ∃ text, fillFrom values names index template = .ok text
  | [], _, _ => ⟨"", rfl⟩
  | .text s :: rest, index, h => by
    obtain ⟨text, hrest⟩ : ∃ text, fillFrom values names index rest = .ok text := exists_fillFrom h
    exact ⟨s ++ text, by rw [fillFrom, hrest]; rfl⟩
  | .next :: rest, index, h => by
    obtain ⟨hindex, hfits⟩ := Bool.and_eq_true_iff.mp h
    obtain ⟨text, hrest⟩ : ∃ text, fillFrom values names (index + 1) rest = .ok text :=
      exists_fillFrom hfits
    have hlt : index < values.length := Nat.lt_of_sub_pos (of_decide_eq_true hindex)
    exact ⟨values[index] ++ text, by rw [fillFrom, List.getElem?_eq_getElem hlt, hrest]; rfl⟩
  | .named name :: rest, index, h => by
    obtain ⟨hname, hfits⟩ := Bool.and_eq_true_iff.mp h
    obtain ⟨text, hrest⟩ : ∃ text, fillFrom values names index rest = .ok text :=
      exists_fillFrom hfits
    obtain ⟨value, hvalue⟩ := Option.isSome_iff_exists.mp
      (Dictionary.get?_isSome_iff.mpr (of_decide_eq_true hname))
    exact ⟨value ++ text, by rw [fillFrom, hvalue, hrest]; rfl⟩

theorem exists_fill {template : Template} (h : template.fits 1 [] = true) (value : String) :
    ∃ text, template.fill value = .ok text :=
  exists_fillFrom h

theorem exists_fillNamed (template : Template) (names : Dictionary String String)
    (h : template.fits 0 names.keys = true) : ∃ text, template.fillNamed names = .ok text :=
  exists_fillFrom h

end Template

namespace Target

/-- Every template of a target can be filled with the values that the emitter has for it, and there
is a print call for numbers to fall back on. -/
structure Complete (t : Target) : Prop where
  declaration : t.declaration.fits 0 ["type", "name", "value"] = true
  assignment : t.assignment.fits 0 ["name", "value"] = true
  printNumber : (t.printTemplates.get? .number).isSome = true
  print : ∀ e ∈ t.printTemplates, e.2.fits 0 ["value"] = true
  string : t.stringTemplate.fits 1 [] = true
  operators : ∀ e ∈ t.operators, e.2.fits 0 ["left", "right"] = true
  concatenation : ∀ template ∈ t.concatenation, template.fits 0 ["left", "right"] = true
  stringify : t.stringify.fits 1 [] = true
  condition : t.conditionFormat.fits 1 [] = true

theorem complete_of_mem_catalogue {t : Target} (h : t ∈ catalogue) : Complete t := by
  have hall : ∀ t ∈ catalogue,
      t.declaration.fits 0 ["type", "name", "value"] = true ∧
      t.assignment.fits 0 ["name", "value"] = true ∧
      (t.printTemplates.get? .number).isSome = true ∧
      (∀ e ∈ t.printTemplates, e.2.fits 0 ["value"] = true) ∧
      t.stringTemplate.fits 1 [] = true ∧
      (∀ e ∈ t.operators, e.2.fits 0 ["left", "right"] = true) ∧
      (∀ template ∈ t.concatenation, template.fits 0 ["left", "right"] = true) ∧
      t.stringify.fits 1 [] = true ∧ t.conditionFormat.fits 1 [] = true := by
    decide
  obtain ⟨hd, ha, hn, hp, hs, ho, hc, hy, hf⟩ := hall t h
  exact ⟨hd, ha, hn, hp, hs, ho, hc, hy, hf⟩

/-- A type name is one of the target's, or empty. -/
theorem typeName_mem (t : Target) (kind : ValueKind) :
    t.typeName kind ∈ "" :: t.typeNames.map Prod.snd := by
  unfold typeName
  cases hget : t.typeNames.get? kind with
  | none => exact List.mem_cons_self
  | some type =>
    have hmem := List.mem_map_of_mem (f := Prod.snd) (Dictionary.mem_of_get? hget)
    exact List.mem_cons_of_mem _ hmem

/-- A print call is one of the target's. -/
theorem mem_of_printTemplate {t : Target} {kind : ValueKind} {template : Template}
    (h : t.printTemplate kind = .ok template) : ∃ kind', (kind', template) ∈ t.printTemplates := by
  unfold printTemplate at h
  split at h
  next template' hkind =>
    cases h
    exact ⟨_, Dictionary.mem_of_get? (Option.filter_eq_some_iff.mp hkind).1⟩
  next =>
    split at h
    next template' hget =>
      cases h
      exact ⟨_, Dictionary.mem_of_get? hget⟩
    next => cases h

namespace Complete

variable {t : Target}

theorem exists_printTemplate (h : Complete t) (kind : ValueKind) :
    ∃ template, t.printTemplate kind = .ok template ∧ template.fits 0 ["value"] = true := by
  unfold printTemplate
  split
  next template hkind =>
    obtain ⟨hget, -⟩ := Option.filter_eq_some_iff.mp hkind
    exact ⟨template, rfl, h.print _ (Dictionary.mem_of_get? hget)⟩
  next =>
    obtain ⟨template, hget⟩ := Option.isSome_iff_exists.mp h.printNumber
    exact ⟨template, by rw [hget], h.print _ (Dictionary.mem_of_get? hget)⟩

theorem exists_quote (h : Complete t) (content : String) : ∃ text, t.quote content = .ok text :=
  Template.exists_fill h.string _

theorem exists_binary (h : Complete t) (operator left right : String) :
    ∃ text, t.binary operator left right = .ok text := by
  unfold binary
  split
  next => exact ⟨_, rfl⟩
  next template hget =>
    exact Template.exists_fillNamed _ _ (h.operators _ (Dictionary.mem_of_get? hget))

/-- A concatenation is refused where the target has none, and never fails otherwise. -/
theorem exists_concatenate (h : Complete t) (hc : t.concatenation ≠ none) (left right : String) :
    ∃ text, t.concatenate left right = .ok (some text) := by
  obtain ⟨template, htemplate⟩ := Option.ne_none_iff_exists'.mp hc
  obtain ⟨text, htext⟩ := Template.exists_fillNamed template (operands left right)
    (h.concatenation template htemplate)
  exact ⟨text, by simp only [concatenate, htemplate, htext]; rfl⟩

end Complete

end Target

end Boli

import Boli.Proofs.Emission.Styles
import Boli.Proofs.Emission.Sums

/-!
# Initializers of declarations

A declaration records the kind of its name before it renders its initializer. The kind of the
initializer is the same before and after that (`valueKind_put_self`), but the kinds of its operands
need not be: a name that holds a number and is declared anew as a sum of a text and itself is a text
already where the sum is rendered, and stands there without the conversion of a number
(`ConvertsItself`). On a target that converts numbers, the text of the initializer is then shorter than
the one that it has before the declaration; in all other cases it is the same one
(`declares_initializer_iff`).
-/

set_option autoImplicit false

namespace Boli

/-! ## Longer values give longer texts -/

namespace Template

section

variable {value value' : Piece → String}

theorem spell_append (template template' : Template) :
    spell value (symbols (template ++ template')) =
      spell value (symbols template) ++ spell value (symbols template') := by
  rw [symbols, List.flatMap_append, spell, List.flatMap_append]
  rfl

theorem length_spell_le (h : ∀ hole, (value hole).length ≤ (value' hole).length)
    (template : Template) :
    (spell value (symbols template)).length ≤ (spell value' (symbols template)).length := by
  induction template with
  | nil => exact Nat.le_refl _
  | cons piece rest ih =>
    cases piece with
    | text s =>
      rw [spell_text, spell_text, List.length_append, List.length_append]
      exact Nat.add_le_add_left ih _
    | next =>
      rw [spell_next, spell_next, List.length_append, List.length_append, String.length_toList,
        String.length_toList]
      exact Nat.add_le_add (h _) ih
    | named name =>
      rw [spell_named, spell_named, List.length_append, List.length_append, String.length_toList,
        String.length_toList]
      exact Nat.add_le_add (h _) ih

/-- A longer value in one of the holes makes the whole text longer. -/
theorem length_spell_lt (h : ∀ hole, (value hole).length ≤ (value' hole).length) {name : String}
    (hlt : (value (.named name)).length < (value' (.named name)).length) {template : Template}
    (hname : .named name ∈ template) :
    (spell value (symbols template)).length < (spell value' (symbols template)).length := by
  obtain ⟨before, after, rfl⟩ := List.append_of_mem hname
  have hbefore := length_spell_le h before
  have hafter := length_spell_le h after
  simp only [spell_append, spell_named, List.length_append, String.length_toList]
  omega

end

theorem length_fillNamed_lt {template : Template} {names names' : Dictionary String String}
    {name text text' : String}
    (hle : ∀ hole, (under names (.named hole)).length ≤ (under names' (.named hole)).length)
    (hlt : (under names (.named name)).length < (under names' (.named name)).length)
    (hname : .named name ∈ template) (h : template.fillNamed names = .ok text)
    (h' : template.fillNamed names' = .ok text') : text.length < text'.length := by
  have hvalues : ∀ hole, (under names hole).length ≤ (under names' hole).length := by
    intro hole
    cases hole with
    | text s => exact Nat.le_refl _
    | next => exact Nat.le_refl _
    | named hole => exact hle hole
  rw [← String.length_toList, ← String.length_toList, toList_fillNamed h, toList_fillNamed h']
  exact length_spell_lt hvalues hlt hname

end Template

namespace Target

open Template (under length_fillNamed_lt)

variable {t : Target}

/-- A concatenation of longer operands is longer. -/
theorem length_concatenate_lt (ht : t ∈ catalogue) {x x' y y' text text' : String}
    (hx : x.length ≤ x'.length) (hy : y.length ≤ y'.length)
    (hlt : x.length < x'.length ∨ y.length < y'.length)
    (h : t.concatenate x y = .ok (some text)) (h' : t.concatenate x' y' = .ok (some text')) :
    text.length < text'.length := by
  have hholes : ∀ t ∈ catalogue, ∀ template ∈ t.concatenation,
      Piece.named "left" ∈ template ∧ Piece.named "right" ∈ template := by
    decide
  have hleft (x y : String) : under (operands x y) (.named "left") = x := rfl
  have hright (x y : String) : under (operands x y) (.named "right") = y := rfl
  have hle : ∀ hole, (under (operands x y) (.named hole)).length ≤
      (under (operands x' y') (.named hole)).length := by
    intro hole
    by_cases hholeLeft : "left" = hole
    · rwa [← hholeLeft, hleft, hleft]
    · by_cases hholeRight : "right" = hole
      · rwa [← hholeRight, hright, hright]
      · simp only [under, operands, Dictionary.get?, if_neg hholeLeft, if_neg hholeRight]
        exact Nat.le_refl _
  cases htemplate : t.concatenation with
  | none =>
    rw [concatenate, htemplate] at h
    cases h
  | some template =>
    obtain ⟨hmemLeft, hmemRight⟩ := hholes t ht template htemplate
    rw [concatenate, htemplate] at h h'
    obtain ⟨filled, hfill, heq⟩ := Results.exists_of_map_eq_ok h
    obtain ⟨filled', hfill', heq'⟩ := Results.exists_of_map_eq_ok h'
    rw [← Option.some.inj heq, ← Option.some.inj heq']
    rcases hlt with hlt | hlt
    · exact length_fillNamed_lt hle (by rwa [hleft, hleft]) hmemLeft hfill hfill'
    · exact length_fillNamed_lt hle (by rwa [hright, hright]) hmemRight hfill hfill'

/-- A declaration of a name, with a text for its value. -/
def declared (t : Target) (kind : ValueKind) (name value : String) : Except Template.Fault String :=
  t.declaration.fillNamed [("type", t.typeName kind), ("name", name), ("value", value)]

/-- A declaration with a longer value is longer. -/
theorem length_declared_lt (ht : t ∈ catalogue) {kind : ValueKind}
    {name value value' text text' : String} (hlt : value.length < value'.length)
    (h : t.declared kind name value = .ok text) (h' : t.declared kind name value' = .ok text') :
    text.length < text'.length := by
  have hhole : ∀ t ∈ catalogue, Piece.named "value" ∈ t.declaration := by decide
  have hvalue (value : String) : under
      [("type", t.typeName kind), ("name", name), ("value", value)] (.named "value") = value := rfl
  refine length_fillNamed_lt ?_ (by rwa [hvalue, hvalue]) (hhole t ht) h h'
  intro hole
  by_cases hholeValue : "value" = hole
  · rw [← hholeValue, hvalue, hvalue]
    exact Nat.le_of_lt hlt
  · simp only [under, Dictionary.get?, if_neg hholeValue]
    exact Nat.le_refl _

theorem length_fill_callOn {function text called : String}
    (h : Template.fill (callOn (.text function) .next) text = .ok called) :
    text.length < called.length := by
  cases h
  have hclose : 0 < ")".length := by decide
  simp only [String.length_append]
  omega

end Target

namespace Rendering

open Emission
open Results (ok_bind)

variable {t : Target} {b : Bindings} {tokens : List Token} {name : String}

/-! ## Conversions -/

/-- The targets on which a number in a concatenation is converted. -/
def converting : List Target := [.cpp, .go, .kotlin, .python]

theorem stringify_eq (ht : t ∈ Target.catalogue) (h : t ∉ converting) : t.stringify = [.next] := by
  revert t
  decide

theorem asString_eq (h : t.stringify = [.next]) (b : Bindings) (e : Expression) (text : String) :
    asString t b e text = .ok text := by
  have hfill : t.stringify.fill text = .ok text := by
    rw [h]
    exact congrArg Except.ok String.append_empty
  rw [asString, hfill]
  exact ite_id _

/-- A conversion writes something around the number. -/
theorem length_fill_stringify (ht : t ∈ converting) {text converted : String}
    (h : t.stringify.fill text = .ok converted) : text.length < converted.length := by
  simp only [converting, List.mem_cons, List.not_mem_nil, or_false] at ht
  rcases ht with rfl | rfl | rfl | rfl
  · exact Target.length_fill_callOn h
  · exact Target.length_fill_callOn h
  · cases h
    have hcall : 0 < ".toString()".length := by decide
    simp only [String.length_append]
    omega
  · exact Target.length_fill_callOn h

theorem asString_congr {b' : Bindings} {e : Expression}
    (h : valueKind b' e = .string ↔ valueKind b e = .string) (text : String) :
    asString t b' e text = asString t b e text := by
  rw [asString, asString]
  exact if_congr h rfl rfl

/-- The text of a literal or a name does not depend on kinds. -/
theorem expression_primary_eq (b b' : Bindings) {e : Expression} (he : e.IsPrimaryOf tokens) :
    expression t b e = expression t b' e := by
  cases e with
  | number n => rfl
  | text s => rfl
  | identifier name => rfl
  | binary operator left right => exact he.elim
  | foreign kind data => exact he.elim

/-! ## Sums of a text and the declared name -/

/-- A sum of a text and a name that does not hold one. -/
inductive ConvertsItself (b : Bindings) (name : String) : Expression → Prop where
  | left {right : Expression} : valueKind b (.identifier name) ≠ .string →
    valueKind b right = .string → ConvertsItself b name (.binary "+" (.identifier name) right)
  | right {left : Expression} : valueKind b (.identifier name) ≠ .string →
    valueKind b left = .string → ConvertsItself b name (.binary "+" left (.identifier name))

/-- Where a name becomes a text, any other operand is a text just if it was one before. -/
theorem valueKind_put_operand {e : Expression} (he : e.IsPrimaryOf tokens)
    (h : e = .identifier name → valueKind b (.identifier name) = .string) :
    valueKind (b.put name .string) e = .string ↔ valueKind b e = .string := by
  refine ⟨?_, valueKind_put_string name⟩
  intro hput
  cases e with
  | number n => cases hput
  | text s => rfl
  | identifier name' =>
    rw [valueKind_put] at hput
    split at hput
    next heq =>
      subst heq
      exact h rfl
    next => exact hput
  | binary operator left right => exact he.elim
  | foreign kind data => exact he.elim

/-- Where no number is converted that the declaration makes a text, the initializer reads the same
before and after the declaration is recorded. -/
theorem expression_put_self {e : Expression} (he : e.IsBuiltOf tokens)
    (h : ¬ ConvertsItself b name e ∨ t.stringify = [.next]) :
    expression t (b.put name (valueKind b e)) e = expression t b e := by
  cases e with
  | number n => rfl
  | text s => rfl
  | identifier name' => rfl
  | foreign kind data => exact he.elim
  | binary operator left right =>
    obtain ⟨-, hleft, hright⟩ := he
    have hself := valueKind_put_self (b := b) name (.binary operator left right)
    rw [expression, expression, expression_primary_eq _ b hleft, expression_primary_eq _ b hright]
    refine bind_congr fun l => bind_congr fun r => ?_
    by_cases hsum : operator = "+" ∧ valueKind b (.binary operator left right) = .string
    · obtain ⟨rfl, hkind⟩ := hsum
      have hoperands (text : String) :
          asString t (b.put name .string) left text = asString t b left text ∧
            asString t (b.put name .string) right text = asString t b right text := by
        rcases h with hnot | hstringify
        · rcases valueKind_binary_eq_string.mp hkind with hl | hr
          · refine ⟨asString_congr (iff_of_true (valueKind_put_string name hl) hl) text,
              asString_congr (valueKind_put_operand hright ?_) text⟩
            rintro rfl
            by_contra hname
            exact hnot (.right hname hl)
          · refine ⟨asString_congr (valueKind_put_operand hleft ?_) text,
              asString_congr (iff_of_true (valueKind_put_string name hr) hr) text⟩
            rintro rfl
            by_contra hname
            exact hnot (.left hname hr)
        · simp only [asString_eq hstringify, and_self]
      have hput := hself.mpr hkind
      rw [hkind] at hput
      rw [hkind, if_pos ⟨rfl, hput⟩, if_pos ⟨rfl, rfl⟩, (hoperands l).1, (hoperands r).2]
    · rw [if_neg hsum, if_neg fun hput => hsum ⟨hput.1, hself.mp hput.2⟩]

/-- A converted operand is longer than the text that is converted. -/
theorem length_asString_le (ht : t ∈ converting) {e : Expression} {text operand : String}
    (h : asString t b e text = .ok operand) :
    text.length ≤ operand.length ∧ (valueKind b e ≠ .string → text.length < operand.length) := by
  rw [asString] at h
  split at h
  next hkind =>
    cases h
    exact ⟨Nat.le_refl _, fun hne => absurd hkind hne⟩
  next =>
    have hlt := length_fill_stringify ht (Results.eq_ok_of_mapError h)
    exact ⟨Nat.le_of_lt hlt, fun _ => hlt⟩

/-- An operand is no longer after a name has become a text than before, and shorter if it has become
a text itself. -/
theorem length_operand_le (ht : t ∈ converting) {e : Expression} {text operand operand' : String}
    (h : asString t (b.put name .string) e text = .ok operand)
    (h' : asString t b e text = .ok operand') :
    operand.length ≤ operand'.length ∧
      (valueKind (b.put name .string) e = .string → valueKind b e ≠ .string →
        operand.length < operand'.length) := by
  obtain ⟨hle, hlt⟩ := length_asString_le ht h'
  by_cases hkind : valueKind (b.put name .string) e = .string
  · rw [asString, if_pos hkind] at h
    cases h
    exact ⟨hle, fun _ => hlt⟩
  · have hbefore : valueKind b e ≠ .string := fun hb => hkind (valueKind_put_string name hb)
    rw [asString_congr (iff_of_false hkind hbefore), h'] at h
    cases h
    exact ⟨Nat.le_refl _, fun hput => absurd hput hkind⟩

theorem expression_sum {left right : Expression} {l r l' r' text : String}
    (hl : expression t b left = .ok l) (hr : expression t b right = .ok r)
    (hkind : valueKind b (.binary "+" left right) = .string)
    (hl' : asString t b left l = .ok l') (hr' : asString t b right r = .ok r')
    (h : t.concatenate l' r' = .ok (some text)) :
    expression t b (.binary "+" left right) = .ok text := by
  rw [expression, hl, hr]
  simp only [ok_bind, true_and]
  rw [if_pos hkind, hl', hr']
  simp only [ok_bind]
  rw [h]
  rfl

theorem ConvertsItself.exists_sum {e : Expression} (h : ConvertsItself b name e) :
    ∃ left right, e = .binary "+" left right ∧ valueKind b e = .string ∧
      valueKind b (.identifier name) ≠ .string ∧
      (left = .identifier name ∨ right = .identifier name) := by
  cases h with
  | left hname hright =>
    exact ⟨_, _, rfl, valueKind_binary_eq_string.mpr (.inr hright), hname, .inl rfl⟩
  | right hname hleft =>
    exact ⟨_, _, rfl, valueKind_binary_eq_string.mpr (.inl hleft), hname, .inr rfl⟩

theorem mem_catalogue_of_converting (ht : t ∈ converting) :
    t ∈ Target.catalogue ∧ t.concatenation ≠ none := by
  revert t
  decide

/-- Where a number is converted that the declaration makes a text, the initializer is longer before
the declaration is recorded. -/
theorem exists_longer_value (ht : t ∈ converting) {e : Expression} (he : e.IsBuiltOf tokens)
    (h : ConvertsItself b name e) {written : String}
    (hwritten : expression t (b.put name (valueKind b e)) e = .ok written) :
    ∃ value, expression t b e = .ok value ∧ written.length < value.length := by
  obtain ⟨hcatalogue, hsome⟩ := mem_catalogue_of_converting ht
  have hc := Target.complete_of_mem_catalogue hcatalogue
  obtain ⟨left, right, rfl, hkind, hname, hoperand⟩ := h.exists_sum
  obtain ⟨-, hleft, hright⟩ := he
  rw [hkind] at hwritten
  have hput := valueKind_put_string name hkind
  have hself : valueKind (b.put name .string) (.identifier name) = .string := by
    rw [valueKind_put, if_pos rfl]
  obtain ⟨l, hl⟩ := exists_primary hc b hleft
  obtain ⟨r, hr⟩ := exists_primary hc b hright
  have hlPut := (expression_primary_eq (b.put name .string) b hleft).trans hl
  have hrPut := (expression_primary_eq (b.put name .string) b hright).trans hr
  obtain ⟨x, hx⟩ := exists_asString hc (b.put name .string) left l
  obtain ⟨y, hy⟩ := exists_asString hc (b.put name .string) right r
  obtain ⟨x', hx'⟩ := exists_asString hc b left l
  obtain ⟨y', hy'⟩ := exists_asString hc b right r
  obtain ⟨text, htext⟩ := hc.exists_concatenate hsome x y
  obtain ⟨value, hvalue⟩ := hc.exists_concatenate hsome x' y'
  rw [expression_sum hlPut hrPut hput hx hy htext] at hwritten
  cases hwritten
  refine ⟨value, expression_sum hl hr hkind hx' hy' hvalue, ?_⟩
  obtain ⟨hxle, hxlt⟩ := length_operand_le ht hx hx'
  obtain ⟨hyle, hylt⟩ := length_operand_le ht hy hy'
  refine Target.length_concatenate_lt hcatalogue hxle hyle ?_ htext hvalue
  rcases hoperand with rfl | rfl
  · exact .inl (hxlt hself hname)
  · exact .inr (hylt hself hname)

/-! ## The line of a declaration -/

/-- Between two states stands the line that declares a name with a text for its value. -/
def Declares (t : Target) (σ τ : State) (kind : ValueKind) (name value : String) : Prop :=
  ∃ text, t.declared kind name value = .ok text ∧
    τ.lines = σ.lines ++ [⟨σ.depth, text ++ t.terminator⟩]

theorem construct_declare_of_ok {policy : Policy} {e : Expression} {σ : State} {written text : String}
    (hwritten : expression t (σ.bindings.put name (valueKind σ.bindings e)) e = .ok written)
    (htext : t.declared (valueKind σ.bindings e) name written = .ok text) :
    construct t policy (.declare name e) σ = .ok ()
      { σ with
        lines := σ.lines ++ [⟨σ.depth, text ++ t.terminator⟩]
        bindings := σ.bindings.put name (valueKind σ.bindings e) } := by
  have hline : declarationText t σ.bindings name e = .ok text := filled_eq hwritten htext
  rw [declarationText] at hline
  rw [construct_declare]
  dsimp only
  rw [hline]

theorem exists_declares {policy : Policy} {e : Expression} {σ τ : State}
    (h : construct t policy (.declare name e) σ = .ok () τ) :
    ∃ written, expression t (σ.bindings.put name (valueKind σ.bindings e)) e = .ok written ∧
      Declares t σ τ (valueKind σ.bindings e) name written := by
  rw [construct_declare] at h
  dsimp only at h
  split at h
  next text htext =>
    obtain ⟨written, hwritten, hfilled⟩ := Results.exists_of_bind_eq_ok htext
    cases h
    exact ⟨written, hwritten, text, Results.eq_ok_of_mapError hfilled, rfl⟩
  next => cases h

theorem not_declares_of_longer (ht : t ∈ Target.catalogue) {σ τ : State} {kind : ValueKind}
    {written value : String} (h : Declares t σ τ kind name written)
    (hlt : written.length < value.length) : ¬ Declares t σ τ kind name value := by
  intro hvalue
  obtain ⟨text, htext, hlines⟩ := h
  obtain ⟨text', htext', hlines'⟩ := hvalue
  have hlength := Target.length_declared_lt ht hlt htext htext'
  rw [hlines, List.append_cancel_left_eq, List.singleton_inj] at hlines'
  rw [(String.append_left_inj t.terminator).mp (congrArg Line.text hlines')] at hlength
  exact Nat.lt_irrefl _ hlength

end Rendering

open Emission Rendering

/-- For every target of the catalogue, every state of the emitter and every declaration that can be
parsed, if the emitter runs over the declaration, its initializer has a text under the kinds that are
recorded before, and the declaration is written with this text unless the target converts numbers and
the initializer is a sum of a text and the declared name, which did not hold a text before. -/
theorem declares_initializer_iff {t : Target} (ht : t ∈ Target.catalogue) {tokens : List Token}
    {e : Expression} (he : e.IsBuiltOf tokens) {policy : Policy} {name : String} {σ τ : State}
    (h : construct t policy (.declare name e) σ = .ok () τ) :
    ∃ value, expression t σ.bindings e = .ok value ∧
      (Declares t σ τ (valueKind σ.bindings e) name value ↔
        ¬ (t ∈ converting ∧ ConvertsItself σ.bindings name e)) := by
  obtain ⟨written, hwritten, hdeclares⟩ := exists_declares h
  by_cases hcase : t ∈ converting ∧ ConvertsItself σ.bindings name e
  · obtain ⟨value, hvalue, hlt⟩ := exists_longer_value hcase.1 he hcase.2 hwritten
    exact ⟨value, hvalue, iff_of_false (not_declares_of_longer ht hdeclares hlt) (not_not_intro hcase)⟩
  · have hsame : ¬ ConvertsItself σ.bindings name e ∨ t.stringify = [.next] := by
      by_cases hconverting : t ∈ converting
      · exact .inl fun hitself => hcase ⟨hconverting, hitself⟩
      · exact .inr (stringify_eq ht hconverting)
    rw [expression_put_self he hsame] at hwritten
    exact ⟨written, hwritten, iff_of_true hdeclares hcase⟩

/-- A number in front of a text that is declared anew is converted. -/
theorem declares_initializer_numberAndText :
    let e : Expression := .binary "+" (.number 1) (.identifier "s")
    let σ : State := { bindings := [("s", .string)] }
    let τ : State := { σ with lines := [⟨0, "s := fmt.Sprint(1) + s"⟩] }
    construct .go .fail (.declare "s" e) σ = .ok () τ ∧
      ∃ value, expression .go σ.bindings e = .ok value ∧ Declares .go σ τ .string "s" value := by
  intro e σ τ
  have hwritten : expression .go (σ.bindings.put "s" (valueKind σ.bindings e)) e =
      .ok "fmt.Sprint(1) + s" := Results.eq_ok_of_toOption (by decide +kernel)
  have htext : Target.go.declared (valueKind σ.bindings e) "s" "fmt.Sprint(1) + s" =
      .ok "s := fmt.Sprint(1) + s" := Results.eq_ok_of_toOption (by decide +kernel)
  have hrun : construct .go .fail (.declare "s" e) σ = .ok () τ :=
    construct_declare_of_ok hwritten htext
  have hbuilt : e.IsBuiltOf [{ kind := .number, value := "1" },
      { kind := .identifier, value := "s" }] :=
    ⟨by decide, ⟨_, List.mem_cons_self, rfl, Results.eq_ok_of_toOption (by decide +kernel)⟩,
      ⟨_, List.mem_cons_of_mem _ List.mem_cons_self, rfl, rfl⟩⟩
  obtain ⟨value, hvalue, hiff⟩ := declares_initializer_iff (by decide) hbuilt hrun
  refine ⟨hrun, value, hvalue, hiff.mpr ?_⟩
  intro h
  obtain ⟨-, -, -, -, hname, -⟩ := h.2.exists_sum
  exact hname rfl

/-- A number that is declared anew as a sum of itself and a text is not converted. -/
theorem not_declares_initializer :
    let e : Expression := .binary "+" (.identifier "n") (.text "!")
    let σ : State := { bindings := [("n", .number)] }
    let τ : State :=
      { bindings := [("n", .string)], lines := [⟨0, "n = n + \"!\""⟩] }
    construct .python .fail (.declare "n" e) σ = .ok () τ ∧
      expression .python σ.bindings e = .ok "str(n) + \"!\"" ∧
      ¬ ∀ t ∈ Target.catalogue, ∀ (tokens : List Token) (e : Expression), e.IsBuiltOf tokens →
        ∀ (policy : Policy) (name : String) (σ τ : State),
          construct t policy (.declare name e) σ = .ok () τ → ∀ value,
            expression t σ.bindings e = .ok value →
              Declares t σ τ (valueKind σ.bindings e) name value := by
  intro e σ τ
  have hwritten : expression .python (σ.bindings.put "n" (valueKind σ.bindings e)) e =
      .ok "n + \"!\"" := Results.eq_ok_of_toOption (by decide +kernel)
  have htext : Target.python.declared (valueKind σ.bindings e) "n" "n + \"!\"" =
      .ok "n = n + \"!\"" := Results.eq_ok_of_toOption (by decide +kernel)
  have hrun : construct .python .fail (.declare "n" e) σ = .ok () τ :=
    construct_declare_of_ok hwritten htext
  have hvalue : expression .python σ.bindings e = .ok "str(n) + \"!\"" :=
    Results.eq_ok_of_toOption (by decide +kernel)
  refine ⟨hrun, hvalue, ?_⟩
  intro hall
  have hbuilt : e.IsBuiltOf [{ kind := .identifier, value := "n" },
      { kind := .string, value := "!" }] :=
    ⟨by decide, ⟨_, List.mem_cons_self, rfl, rfl⟩,
      ⟨_, List.mem_cons_of_mem _ List.mem_cons_self, rfl, rfl⟩⟩
  obtain ⟨line, hline, hlines⟩ := hall .python (by decide) _ e hbuilt .fail "n" σ τ hrun _ hvalue
  have hfilled : Target.python.declared (valueKind σ.bindings e) "n" "str(n) + \"!\"" =
      .ok "n = str(n) + \"!\"" := Results.eq_ok_of_toOption (by decide +kernel)
  rw [hfilled] at hline
  cases hline
  revert hlines
  decide +kernel

end Boli

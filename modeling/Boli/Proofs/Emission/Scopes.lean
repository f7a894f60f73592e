import Boli.Proofs.Emission.Kinds
import Boli.Proofs.Results
import Boli.Target.Catalogue

/-!
# Programs in C under two rules of scope

C closes the scope of a declaration with the braces around it. The emitter has one map for a whole
program, so it goes by the last declaration above in the text. `allLines` writes the lines of
statements in C under either rule, which is said by what is known of names behind a block:
`blockScope` or `noScope`. What the emitter writes for C without a failure is the text without
scopes (`emit_c`).
-/

set_option autoImplicit false

namespace Boli.Scoping

open Emission Results

/-- What is known of names behind a block, from what was known in front of it and at its end. -/
abbrev Leave : Type := Bindings → Bindings → Bindings

/-- A block takes its declarations with it. -/
def blockScope : Leave := fun outer _ => outer

/-- Declarations stay known behind their block. -/
def noScope : Leave := fun _ inner => inner

mutual

/-- The kinds of names behind a statement. -/
def after (leave : Leave) (b : Bindings) : Statement → Bindings
  | .declare name e => b.put name (valueKind b e)
  | .branch _ body rest => restAfter leave (leave b (allAfter leave b body)) rest
  | .loop _ body => leave b (allAfter leave b body)
  | .assign _ _ | .evaluate _ | .print _ | .foreign _ _ => b

/-- The kinds of names behind what follows the body of a branch. -/
def restAfter (leave : Leave) (b : Bindings) : Otherwise → Bindings
  | .nothing => b
  | .last body => leave b (allAfter leave b body)
  | .elseIf _ body rest => restAfter leave (leave b (allAfter leave b body)) rest

/-- The kinds of names behind statements. -/
def allAfter (leave : Leave) (b : Bindings) : List Statement → Bindings
  | [] => b
  | s :: ss => allAfter leave (after leave b s) ss

end

mutual

theorem plain_after : ∀ (s : Statement) {b : Bindings}, Plain b → Plain (after noScope b s)
  | .declare name e, _, h => h.put name e
  | .branch _ body rest, _, h => plain_restAfter rest (plain_allAfter body h)
  | .loop _ body, _, h => plain_allAfter body h
  | .assign _ _, _, h | .evaluate _, _, h | .print _, _, h | .foreign _ _, _, h => h

theorem plain_restAfter : ∀ (r : Otherwise) {b : Bindings}, Plain b → Plain (restAfter noScope b r)
  | .nothing, _, h => h
  | .last body, _, h => plain_allAfter body h
  | .elseIf _ body rest, _, h => plain_restAfter rest (plain_allAfter body h)

theorem plain_allAfter :
    ∀ (ss : List Statement) {b : Bindings}, Plain b → Plain (allAfter noScope b ss)
  | [], _, h => h
  | s :: ss, _, h => plain_allAfter ss (plain_after s h)

end

/-! ## Lines in C -/

/-- An expression in C. -/
def value : Expression → String
  | .number n => (Text.Numeral.write n).toOption.getD ""
  | .text s => "\x22" ++ Target.escapeContent s ++ "\x22"
  | .identifier name => name
  | .binary operator left right => value left ++ " " ++ operator ++ " " ++ value right
  | .foreign _ _ => ""

/-- A condition in C. -/
def conditionValue : Condition → String
  | .compare left operator right =>
    "(" ++ value left ++ " " ++ operator ++ " " ++ value right ++ ")"
  | .foreign _ _ => ""

/-- The type of a declaration with an initializer of a kind. -/
def typeOf (kind : ValueKind) : String := if kind = .string then "char*" else "int"

/-- The print call for a value of a kind. -/
def printCall (kind : ValueKind) (text : String) : String :=
  "printf(\"" ++ (if kind = .string then "%s" else "%d") ++ "\\n\", " ++ text ++ ");"

mutual

/-- The lines of a statement in C, at a depth. -/
def lines (leave : Leave) (b : Bindings) (depth : Int) : Statement → List Line
  | .declare name e => [⟨depth, typeOf (valueKind b e) ++ " " ++ name ++ " = " ++ value e ++ ";"⟩]
  | .assign name e => [⟨depth, name ++ " = " ++ value e ++ ";"⟩]
  | .evaluate e => [⟨depth, value e ++ ";"⟩]
  | .print e => [⟨depth, printCall (valueKind b e) (value e)⟩]
  | .branch c body rest =>
    ⟨depth, "if " ++ conditionValue c ++ " \x7b"⟩ :: allLines leave b (depth + 1) body ++
      restLines leave (leave b (allAfter leave b body)) depth rest ++ [⟨depth, "\x7d"⟩]
  | .loop c body =>
    ⟨depth, "while " ++ conditionValue c ++ " \x7b"⟩ :: allLines leave b (depth + 1) body ++
      [⟨depth, "\x7d"⟩]
  | .foreign _ _ => []

/-- The lines of what follows the body of a branch. -/
def restLines (leave : Leave) (b : Bindings) (depth : Int) : Otherwise → List Line
  | .nothing => []
  | .last body => ⟨depth, "\x7d else \x7b"⟩ :: allLines leave b (depth + 1) body
  | .elseIf c body rest =>
    ⟨depth, "\x7d else if " ++ conditionValue c ++ " \x7b"⟩ ::
      allLines leave b (depth + 1) body ++
      restLines leave (leave b (allAfter leave b body)) depth rest

/-- The lines of statements. -/
def allLines (leave : Leave) (b : Bindings) (depth : Int) : List Statement → List Line
  | [] => []
  | s :: ss => lines leave b depth s ++ allLines leave (after leave b s) depth ss

end

/-- The text of a program in C. -/
def text (leave : Leave) (ss : List Statement) : String :=
  finish .c { start .c with lines := (start .c).lines ++ allLines leave [] 1 ss }

/-! ## What the emitter writes for C -/

section Emitted

variable {σ τ : State} {b : Bindings}

/-- C has no concatenation, so that operators stand between their operands. -/
theorem value_eq_of_expression {e : Expression} {v : String} (h : expression .c b e = .ok v) :
    value e = v := by
  induction e generalizing v with
  | number n =>
    rw [value]
    rw [expression] at h
    cases hw : Text.Numeral.write n with
    | error fault => rw [hw] at h; cases h
    | ok s => rw [hw] at h; cases h; rfl
  | text s =>
    change Except.ok ("\x22" ++ (Target.escapeContent s ++ ("\x22" ++ ""))) = Except.ok v at h
    cases h
    rw [value, String.append_empty, String.append_assoc]
  | identifier name => cases h; rfl
  | foreign kind data => cases h
  | binary operator left right ihl ihr =>
    rw [expression] at h
    obtain ⟨l, hl, h⟩ := exists_of_bind_eq_ok h
    obtain ⟨r, hr, h⟩ := exists_of_bind_eq_ok h
    rw [value, ihl hl, ihr hr]
    by_cases hc : operator = "+" ∧ valueKind b (.binary operator left right) = .string
    · rw [if_pos hc] at h
      obtain ⟨l', -, h⟩ := exists_of_bind_eq_ok h
      obtain ⟨r', -, h⟩ := exists_of_bind_eq_ok h
      cases h
    · rw [if_neg hc] at h
      cases h
      rfl

theorem conditionText_c {c : Condition} {v : String} (h : conditionText .c c σ = .ok v τ) :
    v = conditionValue c ∧ τ = σ := by
  obtain ⟨hc, hτ⟩ := eq_of_lift_eq_ok (r := condition .c σ.bindings c) h
  refine ⟨?_, hτ⟩
  cases c with
  | foreign kind data => cases hc
  | compare left operator right =>
    rw [condition] at hc
    obtain ⟨l, hl, hc⟩ := exists_of_bind_eq_ok hc
    obtain ⟨r, hr, hc⟩ := exists_of_bind_eq_ok hc
    change Except.ok ("(" ++ (l ++ " " ++ operator ++ " " ++ r ++ (")" ++ ""))) = Except.ok v at hc
    cases hc
    rw [conditionValue, value_eq_of_expression hl, value_eq_of_expression hr]
    simp only [String.append_assoc, String.append_empty]

theorem expressionText_c {e : Expression} {v : String} (h : expressionText .c e σ = .ok v τ) :
    v = value e ∧ τ = σ := by
  obtain ⟨hv, hτ⟩ := eq_of_lift_eq_ok (r := expression .c σ.bindings e) h
  exact ⟨(value_eq_of_expression hv).symm, hτ⟩

theorem fillIfEmpty_c (body : List Statement) : fillIfEmpty .c body = pure () := by
  cases body with
  | nil => rfl
  | cons s ss => rfl

/-- A block writes its header and its body, and goes on with the kinds of its declarations. -/
theorem block_c {header : String} {body : List Statement} {m : Emission Unit}
    (hbody : ∀ {σ τ : State}, Plain σ.bindings → each .c .fail body σ = .ok () τ →
      τ = { σ with
        lines := σ.lines ++ allLines noScope σ.bindings σ.depth body
        bindings := allAfter noScope σ.bindings body })
    (hb : Plain σ.bindings)
    (h : (do openBlock .c header; fillIfEmpty .c body; each .c .fail body; indent (-1); m) σ =
      .ok () τ) :
    m { σ with
      lines := σ.lines ++
        ⟨σ.depth, header ++ " \x7b"⟩ :: allLines noScope σ.bindings (σ.depth + 1) body
      bindings := allAfter noScope σ.bindings body } = .ok () τ := by
  rw [fillIfEmpty_c] at h
  -- the header is written and the body is one level deeper
  change (do each .c .fail body; indent (-1); m)
    (State.mk (σ.lines ++ [Line.mk σ.depth (header ++ " \x7b")]) (σ.depth + 1) σ.bindings
      σ.dropped) = _ at h
  obtain ⟨_, σ₁, he, hm⟩ := bind_eq_ok h
  have hσ₁ := hbody (by exact hb) he
  subst hσ₁
  change m (State.mk (σ.lines ++ [Line.mk σ.depth (header ++ " \x7b")] ++
    allLines noScope σ.bindings (σ.depth + 1) body) (σ.depth + 1 + -1)
    (allAfter noScope σ.bindings body) σ.dropped) = _ at hm
  rwa [List.append_assoc, List.singleton_append, Int.add_neg_cancel_right] at hm

mutual

theorem construct_c : ∀ (s : Statement) {σ τ : State}, Plain σ.bindings →
    construct .c .fail s σ = .ok () τ →
    τ = { σ with
      lines := σ.lines ++ lines noScope σ.bindings σ.depth s
      bindings := after noScope σ.bindings s }
  | .foreign kind data, σ, τ, hb, h => by cases h
  | .declare name e, σ, τ, hb, h => by
    rw [construct_declare] at h
    cases hv : expression .c (σ.bindings.put name (valueKind σ.bindings e)) e with
    | error failure =>
      simp only [hv] at h
      cases h
    | ok v =>
      simp only [hv] at h
      change EStateM.Result.ok () (State.mk (σ.lines ++ [Line.mk σ.depth
        (Target.c.typeName (valueKind σ.bindings e) ++ (" " ++ (name ++ (" = " ++ (v ++ "")))) ++
          ";")]) σ.depth (σ.bindings.put name (valueKind σ.bindings e)) σ.dropped) = _ at h
      cases h
      have hk : Target.c.typeName (valueKind σ.bindings e) = typeOf (valueKind σ.bindings e) := by
        rcases hb.valueKind_eq e with hk | hk <;> rw [hk] <;> rfl
      rw [hk, ← value_eq_of_expression hv, lines, after]
      simp only [String.append_assoc, String.append_empty]
  | .assign name e, σ, τ, hb, h => by
    rw [construct] at h
    obtain ⟨v, σ₁, hv, ht⟩ := bind_eq_ok h
    obtain ⟨rfl, rfl⟩ := expressionText_c hv
    cases ht
    rw [lines]
    simp only [String.append_assoc, String.append_empty]
    rfl
  | .evaluate e, σ, τ, hb, h => by
    rw [construct] at h
    obtain ⟨v, σ₁, hv, ht⟩ := bind_eq_ok h
    obtain ⟨rfl, rfl⟩ := expressionText_c hv
    cases ht
    rfl
  | .print e, σ, τ, hb, h => by
    obtain ⟨_, _, hget, ht⟩ := bind_eq_ok h
    cases hget
    obtain ⟨template, σ₁, htemplate, hv⟩ := bind_eq_ok ht
    have hk : template = [.text ("printf(\"" ++
        (if valueKind σ.bindings e = .string then "%s" else "%d") ++ "\\n\", "),
        .named "value", .text ")"] ∧ σ₁ = σ := by
      rcases hb.valueKind_eq e with hk | hk <;> rw [hk] at htemplate ⊢ <;> cases htemplate <;>
        exact ⟨rfl, rfl⟩
    obtain ⟨rfl, rfl⟩ := hk
    obtain ⟨v, σ₂, hv, ht⟩ := bind_eq_ok hv
    obtain ⟨rfl, rfl⟩ := expressionText_c hv
    cases ht
    rw [lines, printCall]
    simp only [String.append_assoc, String.append_empty]
    rfl
  | .branch c body rest, σ, τ, hb, h => by
    rw [construct] at h
    obtain ⟨v, σ₁, hc, ho⟩ := bind_eq_ok h
    obtain ⟨rfl, rfl⟩ := conditionText_c hc
    obtain ⟨_, σ₂, hr, hclose⟩ := bind_eq_ok (block_c (each_c body) hb ho)
    have hσ₂ := continueBranch_c rest (plain_allAfter body hb) hr
    subst hσ₂
    cases hclose
    simp only [lines, after, noScope, List.append_assoc, List.cons_append]
    rfl
  | .loop c body, σ, τ, hb, h => by
    rw [construct] at h
    obtain ⟨v, σ₁, hc, ho⟩ := bind_eq_ok h
    obtain ⟨rfl, rfl⟩ := conditionText_c hc
    have hclose := block_c (each_c body) hb ho
    cases hclose
    simp only [lines, after, noScope, List.append_assoc, List.cons_append]
    rfl

theorem continueBranch_c : ∀ (r : Otherwise) {σ τ : State}, Plain σ.bindings →
    continueBranch .c .fail r σ = .ok () τ →
    τ = { σ with
      lines := σ.lines ++ restLines noScope σ.bindings σ.depth r
      bindings := restAfter noScope σ.bindings r }
  | .nothing, σ, τ, hb, h => by
    cases h
    rw [restLines, restAfter, List.append_nil]
  | .last body, σ, τ, hb, h => by
    rw [continueBranch] at h
    have hτ := block_c (m := pure ()) (each_c body) hb h
    cases hτ
    simp only [restLines, restAfter, noScope]
    rfl
  | .elseIf c body rest, σ, τ, hb, h => by
    rw [continueBranch] at h
    obtain ⟨v, σ₁, hc, ho⟩ := bind_eq_ok h
    obtain ⟨rfl, rfl⟩ := conditionText_c hc
    have hτ := continueBranch_c rest (plain_allAfter body hb) (block_c (each_c body) hb ho)
    subst hτ
    simp only [restLines, restAfter, noScope, List.append_assoc, List.cons_append]
    rfl

/-- Statements that the emitter writes for C without a failure have the lines without scopes. -/
theorem each_c : ∀ (ss : List Statement) {σ τ : State}, Plain σ.bindings →
    each .c .fail ss σ = .ok () τ →
    τ = { σ with
      lines := σ.lines ++ allLines noScope σ.bindings σ.depth ss
      bindings := allAfter noScope σ.bindings ss }
  | [], σ, τ, hb, h => by
    cases h
    rw [allLines, allAfter, List.append_nil]
  | s :: ss, σ, τ, hb, h => by
    rw [each] at h
    obtain ⟨_, σ₁, hs, hss⟩ := bind_eq_ok h
    rw [guarded_fail] at hs
    have hσ₁ := construct_c s hb hs
    subst hσ₁
    have hτ := each_c ss (plain_after s hb) hss
    simpa only [allLines, allAfter, List.append_assoc] using hτ

end

/-- What the emitter writes for C without a failure is the text without scopes. -/
theorem emit_c {ss : List Statement} {out : String}
    (h : emit .c .fail (.statements ss) = .ok out) : out = text noScope ss := by
  rw [emit_statements .fail (fillIfEmpty_c ss)] at h
  cases hs : each .c .fail ss (start .c) with
  | error failure σ => rw [hs] at h; cases h
  | ok a σ =>
    rw [hs] at h
    cases h
    have hb : Plain (start .c).bindings := fun name => .inr rfl
    rw [each_c ss hb hs]
    rfl

end Emitted

end Boli.Scoping

import Boli.Program.Parser
import Boli.Proofs.Emission.Kinds
import Boli.Proofs.Emission.Rendering
import Boli.Proofs.Results
import Boli.Target.Catalogue
import Mathlib.Data.List.Forall2

/-!
# One pass over the declarations

What the emitter knows of names is said here without it. A program is read as the sequence of its
steps, in the order of the text and at whatever depth they stand (`allSteps`), and each declaration
among them records the kind of its initializer, which is that of a text if the initializer is one,
names one or has one as an operand (`HoldsText`).

Where emission is to fail and does not, the kinds that are known at the end are those that this pass
leaves, and in between each line of the output is that of its step under the kinds in front of it
(`body_records_kinds`). The judgement on runs is `Passes`.
-/

set_option autoImplicit false

namespace Boli.Recording

open Emission Rendering
open Results (eq_ok_of_mapError exists_of_bind_eq_ok)

/-! ## Kinds of initializers -/

/-- The value of an expression is a text: the expression is a text, a name that holds one, or an
operation on such an operand. -/
inductive HoldsText (b : Bindings) : Expression → Prop where
  | text (s : String) : HoldsText b (.text s)
  | identifier {name : String} : b.get? name = some .string → HoldsText b (.identifier name)
  | left {operator : String} {left right : Expression} :
    HoldsText b left → HoldsText b (.binary operator left right)
  | right {operator : String} {left right : Expression} :
    HoldsText b right → HoldsText b (.binary operator left right)

theorem valueKind_eq_string_iff (b : Bindings) (e : Expression) :
    valueKind b e = .string ↔ HoldsText b e := by
  induction e with
  | number n => exact ⟨nofun, nofun⟩
  | text s => exact ⟨fun _ => .text s, fun _ => rfl⟩
  | foreign kind data => exact ⟨nofun, nofun⟩
  | identifier name =>
    rw [valueKind]
    constructor
    · intro h
      cases hget : b.get? name with
      | none =>
        rw [hget] at h
        cases h
      | some kind =>
        rw [hget] at h
        cases h
        exact .identifier hget
    · intro h
      cases h with
      | identifier hget =>
        rw [hget]
        rfl
  | binary operator left right ihl ihr =>
    rw [valueKind_binary_eq_string, ihl, ihr]
    constructor
    · intro h
      exact h.elim .left .right
    · intro h
      cases h with
      | left hl => exact .inl hl
      | right hr => exact .inr hr

instance (b : Bindings) : DecidablePred (HoldsText b) := fun e =>
  decidable_of_iff _ (valueKind_eq_string_iff b e)

/-- The kind that is recorded for an initializer. A name passes on what it holds. -/
def kindOf (b : Bindings) (e : Expression) : ValueKind :=
  if HoldsText b e then .string
  else match e with
    | .identifier name => (b.get? name).getD .number
    | .number _ | .text _ | .binary _ _ _ | .foreign _ _ => .number

theorem valueKind_eq_kindOf (b : Bindings) (e : Expression) : valueKind b e = kindOf b e := by
  unfold kindOf
  split
  next htext => exact (valueKind_eq_string_iff b e).mpr htext
  next hnumber =>
    rw [← valueKind_eq_string_iff] at hnumber
    cases e with
    | number n => rfl
    | text s => exact absurd rfl hnumber
    | identifier name => rfl
    | foreign kind data => rfl
    | binary operator left right =>
      rw [valueKind] at hnumber ⊢
      exact if_neg fun hor => hnumber (if_pos hor)

/-- Where names hold texts and numbers, there are no other kinds. -/
theorem kindOf_of_plain {b : Bindings} (h : Plain b) (e : Expression) :
    kindOf b e = if HoldsText b e then .string else .number := by
  split
  next htext => exact if_pos htext
  next hnumber =>
    rw [← valueKind_eq_string_iff] at hnumber
    rw [← valueKind_eq_kindOf]
    exact (h.valueKind_eq e).resolve_left hnumber

/-! ## Steps -/

/-- What a program has a line for, or may have one. -/
inductive Step where
  | declares (name : String) (initializer : Expression)
  | prints (value : Expression)
  /-- An assignment, an expression, or the header of a block. -/
  | writes
  /-- The place of a filler. -/
  | fills (body : List Statement)
  /-- The place of a closing line. -/
  | closes

mutual

/-- The steps of a statement, in the order of the text. -/
def stepsOf : Statement → List Step
  | .declare name e => [.declares name e]
  | .print e => [.prints e]
  | .assign _ _ | .evaluate _ => [.writes]
  | .branch _ body rest =>
    .writes :: .fills body :: (allSteps body ++ (restSteps rest ++ [.closes]))
  | .loop _ body => .writes :: .fills body :: (allSteps body ++ [.closes])
  | .foreign _ _ => []

/-- The steps of what follows the body of a branch. -/
def restSteps : Otherwise → List Step
  | .nothing => []
  | .last body => .writes :: .fills body :: allSteps body
  | .elseIf _ body rest => .writes :: .fills body :: (allSteps body ++ restSteps rest)

/-- The steps of statements. -/
def allSteps : List Statement → List Step
  | [] => []
  | s :: ss => stepsOf s ++ allSteps ss

end

/-- What is known of names behind a step; only a declaration changes it. -/
def Step.record (b : Bindings) : Step → Bindings
  | .declares name e => b.put name (kindOf b e)
  | .prints _ | .writes | .fills _ | .closes => b

/-- What is known of names behind steps. -/
def recorded (b : Bindings) (steps : List Step) : Bindings := steps.foldl Step.record b

/-- The steps with what is known of names in front of each. -/
def located (b : Bindings) : List Step → List (Bindings × Step)
  | [] => []
  | step :: steps => (b, step) :: located (step.record b) steps

theorem recorded_append (b : Bindings) (steps steps' : List Step) :
    recorded b (steps ++ steps') = recorded (recorded b steps) steps' :=
  List.foldl_append

theorem located_append (b : Bindings) (steps steps' : List Step) :
    located b (steps ++ steps') = located b steps ++ located (recorded b steps) steps' := by
  induction steps generalizing b with
  | nil => rfl
  | cons step steps ih => exact congrArg ((b, step) :: ·) (ih (step.record b))

/-- A step records no kinds but those of texts and numbers, and those that were there. -/
theorem plain_record {b : Bindings} (h : Plain b) (step : Step) : Plain (step.record b) := by
  cases step with
  | declares name e =>
    rw [Step.record, ← valueKind_eq_kindOf]
    exact h.put name e
  | prints e => exact h
  | writes => exact h
  | fills body => exact h
  | closes => exact h

theorem plain_of_mem_located {b b' : Bindings} {step : Step} {steps : List Step} (h : Plain b)
    (hmem : (b', step) ∈ located b steps) : Plain b' := by
  induction steps generalizing b with
  | nil => cases hmem
  | cons first rest ih =>
    rcases List.mem_cons.mp hmem with heq | hmem
    · cases heq
      exact h
    · exact ih (plain_record h first) hmem

/-! ## Lines of steps -/

variable {t : Target}

/-- The lines of a step, by what is known of names in front of it. A declaration has the type of the
kind that it records, and a print call is filled into the template of the kind of its value. -/
inductive Shows (t : Target) : Bindings × Step → List Line → Prop where
  | declares {b : Bindings} {name : String} {e : Expression} {value text : String} (depth : Int) :
    t.declaration.fillNamed
      [("type", t.typeName (kindOf b e)), ("name", name), ("value", value)] = .ok text →
    Shows t (b, .declares name e) [⟨depth, text ++ t.terminator⟩]
  | prints {b : Bindings} {e : Expression} {template : Template} {value text : String}
    (depth : Int) :
    t.printTemplate (kindOf b e) = .ok template → expression t b e = .ok value →
    template.fillNamed [("value", value)] = .ok text →
    Shows t (b, .prints e) [⟨depth, text ++ t.terminator⟩]
  | writes (b : Bindings) (l : Line) : Shows t (b, .writes) [l]
  | fills (b : Bindings) (body : List Statement) (depth : Int) :
    Shows t (b, .fills body) (filler t depth body)
  | closes (b : Bindings) (depth : Int) : Shows t (b, .closes) (closer t depth)

/-- From one state to the other steps are taken: what is known of names is what they record, and
their lines are added, step by step. -/
structure Passes (t : Target) (steps : List Step) (σ τ : State) : Prop where
  bindings : τ.bindings = recorded σ.bindings steps
  lines : ∃ parts : List (List Line), τ.lines = σ.lines ++ parts.flatten ∧
    List.Forall₂ (Shows t) (located σ.bindings steps) parts

section Runs

variable {α β : Type} {σ τ υ : State} {steps steps' : List Step}

theorem Passes.nil (hb : τ.bindings = σ.bindings) (hl : τ.lines = σ.lines) : Passes t [] σ τ :=
  ⟨hb, [], by rw [hl, List.flatten_nil, List.append_nil], .nil⟩

theorem Passes.single {step : Step} {ls : List Line}
    (hb : τ.bindings = step.record σ.bindings) (hl : τ.lines = σ.lines ++ ls)
    (h : Shows t (σ.bindings, step) ls) : Passes t [step] σ τ :=
  ⟨hb, [ls], by rw [hl, List.flatten_singleton], .cons h .nil⟩

theorem Passes.append (h : Passes t steps σ τ) (h' : Passes t steps' τ υ) :
    Passes t (steps ++ steps') σ υ := by
  obtain ⟨parts, hparts, hshows⟩ := h.lines
  obtain ⟨parts', hparts', hshows'⟩ := h'.lines
  rw [h.bindings] at hshows'
  refine ⟨?_, parts ++ parts', ?_, ?_⟩
  · rw [h'.bindings, h.bindings, recorded_append]
  · rw [hparts', hparts, List.flatten_append, List.append_assoc]
  · rw [located_append]
    exact List.rel_append hshows hshows'

/-- Every run that ends with a result takes the steps. -/
def Takes (t : Target) (m : Emission α) (steps : List Step) : Prop :=
  ∀ σ a τ, m σ = .ok a τ → Passes t steps σ τ

theorem Takes.bind {m : Emission α} {f : α → Emission β} (hm : Takes t m steps)
    (hf : ∀ a, Takes t (f a) steps') : Takes t (m >>= f) (steps ++ steps') := by
  intro σ b υ h
  obtain ⟨a, τ, hma, hfa⟩ := bind_eq_ok h
  exact (hm σ a τ hma).append (hf a τ b υ hfa)

theorem Takes.lift (r : Except Failure α) : Takes t (lift r) [] := by
  intro σ a τ h
  obtain ⟨-, rfl⟩ := eq_of_lift_eq_ok h
  exact .nil rfl rfl

theorem takes_conditionText (c : Condition) : Takes t (conditionText t c) [] := by
  intro σ text τ h
  obtain ⟨-, rfl⟩ := eq_of_lift_eq_ok (r := condition t σ.bindings c) h
  exact .nil rfl rfl

theorem takes_indent (levels : Int) : Takes t (indent levels) [] := by
  intro σ _ τ h
  cases h
  exact .nil rfl rfl

theorem takes_openBlock (header : String) : Takes t (openBlock t header) [.writes] := by
  intro σ _ τ h
  cases h
  exact .single rfl rfl (.writes _ _)

theorem takes_fillIfEmpty (body : List Statement) :
    Takes t (fillIfEmpty t body) [.fills body] := by
  intro σ _ τ h
  rw [fillIfEmpty_run] at h
  cases h
  exact .single rfl rfl (.fills _ _ _)

theorem takes_closeBlock : Takes t (closeBlock t) [.closes] := by
  intro σ _ τ h
  rw [closeBlock_run] at h
  cases h
  exact .single rfl rfl (.closes _ _)

/-- A block takes the steps of its header and of its body before what comes behind it. -/
theorem takes_block (header : String) {body : List Statement} {m : Emission Unit}
    (hbody : Takes t (each t .fail body) (allSteps body)) (hm : Takes t m steps) :
    Takes t (do openBlock t header; fillIfEmpty t body; each t .fail body; indent (-1); m)
      (.writes :: .fills body :: (allSteps body ++ steps)) :=
  (takes_openBlock header).bind fun _ => (takes_fillIfEmpty body).bind fun _ =>
    hbody.bind fun _ => (takes_indent (-1)).bind fun _ => hm

/-- A simple statement that is no declaration and no print call. -/
theorem Takes.of_simple {m : Emission Unit} {r : State → Except Failure String}
    (h : ∀ σ, m σ = (Emission.lift (r σ) >>= simple t) σ) : Takes t m [.writes] := by
  intro σ _ τ hm
  rw [h] at hm
  obtain ⟨text, -, rfl⟩ := exists_of_simple hm
  exact .single rfl rfl (.writes _ _)

theorem takes_declare (policy : Policy) (name : String) (e : Expression) :
    Takes t (construct t policy (.declare name e)) [.declares name e] := by
  intro σ _ τ h
  rw [declare_run] at h
  obtain ⟨text, htext, rfl⟩ := exists_of_simple h
  rw [declarationText, valueKind_eq_kindOf] at htext
  obtain ⟨value, -, hfill⟩ := exists_of_bind_eq_ok htext
  refine .single ?_ rfl (.declares _ (eq_ok_of_mapError hfill))
  rw [valueKind_eq_kindOf]
  rfl

theorem takes_print (policy : Policy) (e : Expression) :
    Takes t (construct t policy (.print e)) [.prints e] := by
  intro σ _ τ h
  rw [print_run] at h
  obtain ⟨text, htext, rfl⟩ := exists_of_simple h
  rw [printText, valueKind_eq_kindOf] at htext
  obtain ⟨template, htemplate, htext⟩ := exists_of_bind_eq_ok htext
  obtain ⟨value, hvalue, hfill⟩ := exists_of_bind_eq_ok htext
  exact .single rfl rfl
    (.prints _ (eq_ok_of_mapError htemplate) hvalue (eq_ok_of_mapError hfill))

mutual

theorem construct_takes : ∀ s : Statement, Takes t (construct t .fail s) (stepsOf s)
  | .foreign kind data => by
    rw [construct]
    exact .lift _
  | .declare name e => takes_declare .fail name e
  | .assign name e => .of_simple (assign_run name e)
  | .evaluate e => .of_simple (evaluate_run e)
  | .print e => takes_print .fail e
  | .branch c body rest => by
    rw [construct]
    exact (takes_conditionText c).bind fun _ => takes_block _ (each_takes body)
      ((continueBranch_takes rest).bind fun _ => takes_closeBlock)
  | .loop c body => by
    rw [construct]
    exact (takes_conditionText c).bind fun _ => takes_block _ (each_takes body) takes_closeBlock

theorem continueBranch_takes :
    ∀ r : Otherwise, Takes t (continueBranch t .fail r) (restSteps r)
  | .nothing => .lift (.ok ())
  | .last body => by
    have hblock := takes_block (m := pure ()) (continuation t t.elseKeyword) (each_takes body)
      (.lift (.ok ()))
    rwa [List.append_nil] at hblock
  | .elseIf c body rest => by
    rw [continueBranch]
    exact (takes_conditionText c).bind fun _ => takes_block _ (each_takes body)
      (continueBranch_takes rest)

/-- Statements that are written take their steps in the order of the text. -/
theorem each_takes : ∀ ss : List Statement, Takes t (each t .fail ss) (allSteps ss)
  | [] => .lift (.ok ())
  | s :: ss => by
    rw [each, guarded_fail]
    exact (construct_takes s).bind fun _ => each_takes ss

end

/-! ## Runs that record nothing -/

/-- Behind a run, and where it fails, the kinds of names are those in front of it. -/
def LeavesKinds (m : Emission α) : Prop :=
  ∀ σ, match m σ with
    | .ok _ τ => τ.bindings = σ.bindings
    | .error _ τ => τ.bindings = σ.bindings

theorem LeavesKinds.of_simple {m : Emission Unit} {r : State → Except Failure String}
    (h : ∀ σ, m σ = (Emission.lift (r σ) >>= simple t) σ) : LeavesKinds m := by
  intro σ
  rw [h]
  cases r σ with
  | ok text => rfl
  | error failure => rfl

theorem leavesKinds_conditionText (c : Condition) : LeavesKinds (conditionText t c) := by
  intro σ
  have hrun : conditionText t c σ = Emission.lift (condition t σ.bindings c) σ := rfl
  rw [hrun]
  cases condition t σ.bindings c with
  | ok text => rfl
  | error failure => rfl

end Runs

/-! ## What a run records -/

/-- Where emission is to fail and does not, the kinds of names at its end are what the declarations
record, in the order of the text. Each line is that of its step, so that every print call has the
template of the kind of its value under the kinds in front of it. From texts and numbers an
initializer records a text exactly if its value is one, and a number otherwise. Assignments, print
calls and conditions record nothing. -/
theorem body_records_kinds {t : Target} {ss : List Statement} {σ τ : State}
    (h : body t .fail ss σ = .ok () τ) :
    τ.bindings = recorded σ.bindings (allSteps ss) ∧
    (∃ parts : List (List Line), τ.lines = σ.lines ++ parts.flatten ∧
      List.Forall₂ (Shows t) (located σ.bindings (.fills ss :: allSteps ss)) parts) ∧
    (Plain σ.bindings → ∀ b step, (b, step) ∈ located σ.bindings (allSteps ss) → ∀ e,
      kindOf b e = if HoldsText b e then .string else .number) ∧
    (∀ policy name e, LeavesKinds (construct t policy (.assign name e))) ∧
    (∀ policy e, LeavesKinds (construct t policy (.print e))) ∧
    ∀ c, LeavesKinds (conditionText t c) := by
  have htakes : Takes t (body t .fail ss) (.fills ss :: allSteps ss) :=
    (takes_fillIfEmpty ss).bind fun _ => each_takes ss
  obtain ⟨hbindings, hlines⟩ := htakes σ () τ h
  exact ⟨hbindings, hlines,
    fun hplain b step hmem e => kindOf_of_plain (plain_of_mem_located hplain hmem) e,
    fun policy name e => .of_simple (assign_run name e), fun policy e => .of_simple (print_run e),
    leavesKinds_conditionText⟩

/-- A name that takes a text over from a name that was known before, and is a number from the first
branch on. -/
def redeclaredInBranch : List Token :=
  [{ kind := .keyword .var, value := "ye" }, { kind := .identifier, value := "n" },
    { kind := .operator, value := "=" }, { kind := .identifier, value := "k" },
    { kind := .keyword .ifStart, value := "agar" }, { kind := .number, value := "1" },
    { kind := .operator, value := "<" }, { kind := .number, value := "2" },
    { kind := .openBrace, value := "\x7b" },
    { kind := .keyword .print, value := "bol" }, { kind := .identifier, value := "n" },
    { kind := .keyword .var, value := "ye" }, { kind := .identifier, value := "n" },
    { kind := .operator, value := "=" }, { kind := .number, value := "3" },
    { kind := .closeBrace, value := "\x7d" },
    { kind := .keyword .elseStart, value := "varna" },
    { kind := .keyword .print, value := "bol" }, { kind := .identifier, value := "n" }]

/-- The print call of the second branch goes by the declaration in the first. -/
theorem body_records_kinds_redeclaredInBranch :
    let n : Expression := .identifier "n"
    let ss : List Statement :=
      [.declare "n" (.identifier "k"),
        .branch (.compare (.number 1) "<" (.number 2)) [.print n, .declare "n" (.number 3)]
          (.last [.print n])]
    let σ : State := { depth := 1, bindings := [("k", .string)] }
    parse .strict redeclaredInBranch = .ok (.statements ss) ∧
      (∀ e, kindOf σ.bindings e = if HoldsText σ.bindings e then .string else .number) ∧
      ∃ τ, body .c .fail ss σ = .ok () τ ∧ τ.bindings = [("k", .string), ("n", .number)] ∧
        τ.lines = [⟨1, "char* n = k;"⟩, ⟨1, "if (1 < 2) \x7b"⟩, ⟨2, "printf(\"%s\\n\", n);"⟩,
          ⟨2, "int n = 3;"⟩, ⟨1, "\x7d else \x7b"⟩, ⟨2, "printf(\"%d\\n\", n);"⟩,
          ⟨1, "\x7d"⟩] := by
  intro n ss σ
  have hparse : parse .strict redeclaredInBranch = .ok (.statements ss) :=
    Results.eq_ok_of_toOption (by decide +kernel)
  have hempty : Plain [] := fun name => .inr rfl
  have hplain : Plain σ.bindings := hempty.put "k" (.text "a")
  have hrun : body .c .fail ss σ = .ok () _ := rfl
  obtain ⟨hbindings, -, hkinds, -⟩ := body_records_kinds hrun
  exact ⟨hparse, hkinds hplain _ _ List.mem_cons_self, _, hrun, hbindings.trans (by decide), rfl⟩

end Boli.Recording

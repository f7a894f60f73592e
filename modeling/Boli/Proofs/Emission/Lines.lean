import Boli.Proofs.Emission.Outline
import Boli.Proofs.Emission.Rendering
import Boli.Proofs.Results
import Mathlib.Data.List.Forall2

/-!
# Lines that stand for entries

Whenever a run of the emitter ends with a result, the lines that it has added stand for the entries
of the outline, one by one (`each_adds`): each is as deep as its entry says and has a text of its
part. This asks nothing of the tree. It may hold foreign values and numbers that cannot be written,
as long as the target can concatenate texts, or emission fails for every drop.
-/

set_option autoImplicit false

namespace Boli.Outline

open Emission Rendering
open Results (exists_of_bind_eq_ok eq_ok_of_mapError)

/-! ## Lines that stand for entries -/

/-- The texts that a target has for a part. -/
inductive Spells (t : Target) : Part → String → Prop where
  | declare {b : Bindings} {name : String} {e : Expression} {text : String} :
    declarationText t b name e = .ok text →
    Spells t (.simple (.declare name e)) (text ++ t.terminator)
  | assign {b : Bindings} {name : String} {e : Expression} {text : String} :
    assignmentText t b name e = .ok text →
    Spells t (.simple (.assign name e)) (text ++ t.terminator)
  | evaluate {b : Bindings} {e : Expression} {text : String} :
    expression t b e = .ok text → Spells t (.simple (.evaluate e)) (text ++ t.terminator)
  | print {b : Bindings} {e : Expression} {text : String} :
    printText t b e = .ok text → Spells t (.simple (.print e)) (text ++ t.terminator)
  | filler {text : String} : t.emptyBlock = some text → Spells t .filler text
  | branch {b : Bindings} {c : Condition} {text : String} :
    condition t b c = .ok text → Spells t (.branch c) (opener t (t.ifKeyword ++ " " ++ text))
  | loop {b : Bindings} {c : Condition} {text : String} :
    condition t b c = .ok text → Spells t (.loop c) (opener t (t.whileKeyword ++ " " ++ text))
  | elseIf {b : Bindings} {c : Condition} {text : String} :
    condition t b c = .ok text →
    Spells t (.elseIf c) (opener t (continuation t (t.elseIfKeyword ++ " " ++ text)))
  | last : Spells t .last (opener t (continuation t t.elseKeyword))
  | closing : Spells t .closing "\x7d"
  | dropped {s : Statement} (kind : String) : Spells t (.dropped s) (comment t kind)

/-- A line stands for an entry if it is as deep below the top level, which stands at `level`, and
has a text of its part. -/
structure Stands (t : Target) (level : Int) (e : Entry) (l : Line) : Prop where
  depth : l.depth = level + e.depth
  text : Spells t e.part l.text

/-- From one state to the other the depth is kept and lines are added that stand for the entries.
There are comment lines only under the comment policy. -/
structure Adds (t : Target) (policy : Policy) (level : Int) (es : List Entry) (σ τ : State) :
    Prop where
  depth : τ.depth = σ.depth
  lines : ∃ ls, τ.lines = σ.lines ++ ls ∧ List.Forall₂ (Stands t level) es ls
  kept : policy = .fail → Uncommented es

/-- Blocks without braces, and only these, have a statement that fills them if they are empty. -/
def Fills (t : Target) : Prop := t.emptyBlock.isSome = true ↔ t.blockStyle = .colon

theorem fills_of_mem_catalogue {t : Target} (ht : t ∈ Target.catalogue) : Fills t := by
  have hall : ∀ t ∈ Target.catalogue, t.emptyBlock.isSome = true ↔ t.blockStyle = .colon := by
    decide
  exact hall t ht

variable {t : Target} {policy : Policy} {level : Int} {σ τ υ : State} {es es' : List Entry}

theorem Adds.nil (hdepth : τ.depth = σ.depth) (hlines : τ.lines = σ.lines) :
    Adds t policy level [] σ τ :=
  ⟨hdepth, ⟨[], by rw [hlines, List.append_nil], .nil⟩, fun _ _ he => nomatch he⟩

theorem Adds.line {d : Nat} {part : Part} {text : String} (hσ : σ.depth = level + d)
    (htext : Spells t part text) (hkept : policy = .fail → part.shape ≠ .comment)
    (hdepth : τ.depth = σ.depth) (hlines : τ.lines = σ.lines ++ [⟨σ.depth, text⟩]) :
    Adds t policy level [⟨d, part⟩] σ τ := by
  refine ⟨hdepth, ⟨_, hlines, .cons ⟨hσ, htext⟩ .nil⟩, ?_⟩
  intro hfail e he
  rw [List.mem_singleton.mp he]
  exact hkept hfail

theorem Adds.append (h : Adds t policy level es σ τ) (h' : Adds t policy level es' τ υ) :
    Adds t policy level (es ++ es') σ υ := by
  obtain ⟨hdepth, ⟨ls, hlines, hls⟩, hkept⟩ := h
  obtain ⟨hdepth', ⟨ls', hlines', hls'⟩, hkept'⟩ := h'
  refine ⟨hdepth'.trans hdepth, ⟨ls ++ ls', ?_, List.rel_append hls hls'⟩, ?_⟩
  · rw [hlines', hlines, List.append_assoc]
  · intro hfail e he
    rcases List.mem_append.mp he with he | he
    · exact hkept hfail e he
    · exact hkept' hfail e he

/-! ## Native nodes and refusals -/

theorem isNative_of_expression {b : Bindings} : ∀ {e : Expression} {text : String},
    expression t b e = .ok text → e.isNative = true
  | .number _, _, _ => rfl
  | .text _, _, _ => rfl
  | .identifier _, _, _ => rfl
  | .foreign _ _, _, h => nomatch h
  | .binary _ left right, _, h => by
    rw [expression] at h
    obtain ⟨l, hl, h⟩ := exists_of_bind_eq_ok h
    obtain ⟨r, hr, -⟩ := exists_of_bind_eq_ok h
    simp only [Expression.isNative, isNative_of_expression hl, isNative_of_expression hr,
      Bool.and_self]

theorem isNative_of_condition {b : Bindings} {c : Condition} {text : String}
    (h : condition t b c = .ok text) : c.isNative = true := by
  cases c with
  | foreign kind data => cases h
  | compare left operator right =>
    rw [condition] at h
    obtain ⟨l, hl, h⟩ := exists_of_bind_eq_ok h
    obtain ⟨r, hr, -⟩ := exists_of_bind_eq_ok h
    simp only [Condition.isNative, isNative_of_expression hl, isNative_of_expression hr,
      Bool.and_self]

/-- A text that is not refused: it is given, or there is another fault. -/
def Accepts {α : Type} (r : Except Failure α) : Prop :=
  ∀ kind target, r ≠ .error (.unsupported kind target)

theorem Accepts.ok {α : Type} (a : α) : Accepts (.ok a) := by
  intro kind target h
  cases h

theorem Accepts.template {α : Type} (r : Except Template.Fault α) :
    Accepts (r.mapError .template) := by
  intro kind target h
  cases r with
  | ok a => cases h
  | error fault => cases h

theorem Accepts.bind {α β : Type} {r : Except Failure α} {f : α → Except Failure β}
    (hr : Accepts r) (hf : ∀ a, r = .ok a → Accepts (f a)) : Accepts (r >>= f) := by
  cases r with
  | ok a => exact hf a rfl
  | error failure =>
    intro kind target h
    cases h
    exact hr kind target rfl

theorem accepts_asString (b : Bindings) (e : Expression) (text : String) :
    Accepts (asString t b e text) := by
  unfold asString
  split
  next => exact .ok text
  next => exact .template _

/-- Where texts can be concatenated, only foreign values are refused. -/
theorem accepts_expression (hconcat : t.concatenation ≠ none) (b : Bindings) :
    ∀ e : Expression, e.isNative = true → Accepts (expression t b e)
  | .number n, _ => by
    intro kind target h
    rw [expression] at h
    cases hn : Text.Numeral.write n <;> rw [hn] at h <;> cases h
  | .text _, _ => .template _
  | .identifier name, _ => .ok name
  | .foreign _ _, h => nomatch h
  | .binary operator left right, h => by
    obtain ⟨hl, hr⟩ := Bool.and_eq_true_iff.mp h
    rw [expression]
    refine (accepts_expression hconcat b left hl).bind fun l _ => ?_
    refine (accepts_expression hconcat b right hr).bind fun r _ => ?_
    split
    next =>
      refine (accepts_asString b left l).bind fun l' _ => ?_
      refine (accepts_asString b right r).bind fun r' _ => ?_
      refine (Accepts.template _).bind fun joined hjoined => ?_
      obtain ⟨template, htemplate⟩ := Option.ne_none_iff_exists'.mp hconcat
      rw [Target.concatenate, htemplate] at hjoined
      obtain ⟨text, -, rfl⟩ := Results.exists_of_map_eq_ok (eq_ok_of_mapError hjoined)
      exact .ok text
    next => exact .template _

theorem accepts_condition (hconcat : t.concatenation ≠ none) (b : Bindings) (c : Condition)
    (h : c.isNative = true) : Accepts (condition t b c) := by
  cases c with
  | foreign kind data => cases h
  | compare left operator right =>
    obtain ⟨hl, hr⟩ := Bool.and_eq_true_iff.mp h
    rw [condition]
    refine (accepts_expression hconcat b left hl).bind fun l _ => ?_
    refine (accepts_expression hconcat b right hr).bind fun r _ => ?_
    exact (Accepts.template _).bind fun text _ => .template _

/-! ### Runs -/

/-- A run that is not stopped by a refusal. -/
def Unrefused {α : Type} (m : Emission α) : Prop :=
  ∀ σ kind target τ, m σ ≠ .error (.unsupported kind target) τ

theorem Unrefused.bind {α β : Type} {m : Emission α} {f : α → Emission β} (hm : Unrefused m)
    (hf : ∀ a, Unrefused (f a)) : Unrefused (m >>= f) := by
  intro σ kind target τ h
  change EStateM.bind m f σ = _ at h
  unfold EStateM.bind at h
  cases hrun : m σ with
  | ok a υ =>
    rw [hrun] at h
    exact hf a υ kind target τ h
  | error failure υ =>
    rw [hrun] at h
    cases h
    exact hm σ kind target _ hrun

theorem Unrefused.pure {α : Type} (a : α) : Unrefused (Pure.pure a) := by
  intro σ kind target τ h
  cases h

theorem Unrefused.get : Unrefused get := by
  intro σ kind target τ h
  cases h

theorem Unrefused.modify (f : State → State) : Unrefused (modify f) := by
  intro σ kind target τ h
  cases h

theorem Unrefused.lift {α : Type} {r : Except Failure α} (hr : Accepts r) :
    Unrefused (lift r) := by
  intro σ kind target τ h
  cases r with
  | ok a => cases h
  | error failure =>
    cases h
    exact hr kind target rfl

theorem unrefused_openBlock (header : String) : Unrefused (openBlock t header) :=
  (Unrefused.modify _).bind fun _ => .modify _

theorem unrefused_closeBlock : Unrefused (closeBlock t) := by
  unfold closeBlock
  cases t.blockStyle with
  | braces => exact .modify _
  | colon => exact .pure ()

theorem unrefused_fillIfEmpty (body : List Statement) : Unrefused (fillIfEmpty t body) := by
  unfold fillIfEmpty
  split
  next => exact .modify _
  next => exact .pure ()

theorem unrefused_expressionText (hconcat : t.concatenation ≠ none) {e : Expression}
    (h : e.isNative = true) : Unrefused (expressionText t e) := by
  intro σ
  exact Unrefused.lift (accepts_expression hconcat σ.bindings e h) σ

theorem unrefused_conditionText (hconcat : t.concatenation ≠ none) {c : Condition}
    (h : c.isNative = true) : Unrefused (conditionText t c) := by
  intro σ
  exact Unrefused.lift (accepts_condition hconcat σ.bindings c h) σ

/-- The comment policy takes care of every refusal. -/
theorem unrefused_guarded (m : Emission Unit) : Unrefused (guarded t .comment m) := by
  intro σ kind target τ h
  rw [guarded_run] at h
  cases hm : m σ with
  | ok a υ =>
    rw [hm] at h
    cases h
  | error failure υ =>
    rw [hm] at h
    cases failure <;> cases h

theorem unrefused_each (ss : List Statement) : Unrefused (each t .comment ss) := by
  induction ss with
  | nil =>
    rw [each]
    exact .pure ()
  | cons s ss ih =>
    rw [each]
    exact (unrefused_guarded _).bind fun _ => ih

/-- A block with what comes behind it. -/
theorem unrefused_block (header : String) (body : List Statement) {m : Emission Unit}
    (hm : Unrefused m) :
    Unrefused (do
      openBlock t header; fillIfEmpty t body; each t .comment body; indent (-1); m) := by
  apply (unrefused_openBlock header).bind
  intro _
  apply (unrefused_fillIfEmpty body).bind
  intro _
  apply (unrefused_each body).bind
  intro _
  apply (Unrefused.modify _).bind
  intro _
  exact hm

theorem unrefused_continueBranch (hconcat : t.concatenation ≠ none) :
    ∀ r : Otherwise, r.isNative = true → Unrefused (continueBranch t .comment r)
  | .nothing, _ => .pure ()
  | .last body, _ => by
    rw [continueBranch]
    exact unrefused_block (m := pure ()) _ body (.pure ())
  | .elseIf c body rest, h => by
    obtain ⟨hc, hrest⟩ := Bool.and_eq_true_iff.mp h
    rw [continueBranch]
    apply (unrefused_conditionText hconcat hc).bind
    intro _
    exact unrefused_block _ body (unrefused_continueBranch hconcat rest hrest)

/-- Where texts can be concatenated, the comment policy drops no native statement. -/
theorem unrefused_construct (hconcat : t.concatenation ≠ none) (s : Statement)
    (h : s.isNative = true) : Unrefused (construct t .comment s) := by
  cases s with
  | foreign kind data => cases h
  | declare name e =>
    rw [construct]
    apply Unrefused.get.bind
    intro σ
    apply (Unrefused.modify _).bind
    intro _
    apply (unrefused_expressionText hconcat h).bind
    intro value
    exact (Unrefused.lift (.template _)).bind fun text => .modify _
  | assign name e =>
    rw [construct]
    apply (unrefused_expressionText hconcat h).bind
    intro value
    exact (Unrefused.lift (.template _)).bind fun text => .modify _
  | evaluate e =>
    rw [construct]
    exact (unrefused_expressionText hconcat h).bind fun text => .modify _
  | print e =>
    rw [construct]
    apply Unrefused.get.bind
    intro σ
    apply (Unrefused.lift (.template _)).bind
    intro template
    apply (unrefused_expressionText hconcat h).bind
    intro value
    exact (Unrefused.lift (.template _)).bind fun text => .modify _
  | branch c body rest =>
    obtain ⟨hc, hrest⟩ := Bool.and_eq_true_iff.mp h
    rw [construct]
    apply (unrefused_conditionText hconcat hc).bind
    intro text
    apply unrefused_block _ body
    exact (unrefused_continueBranch hconcat rest hrest).bind fun _ => unrefused_closeBlock
  | loop c body =>
    rw [construct]
    apply (unrefused_conditionText hconcat h).bind
    intro text
    exact unrefused_block _ body unrefused_closeBlock

/-! ### Runs that end with a result -/

/-- A simple statement adds its line. -/
theorem adds_simple {r : Except Failure String} {d : Nat} {part : Part}
    (h : (lift r >>= simple t) σ = .ok () τ) (hσ : σ.depth = level + d)
    (hspells : ∀ text, r = .ok text → Spells t part (text ++ t.terminator))
    (hpart : part.shape = .simple) :
    Adds t policy level [⟨d, part⟩] σ τ := by
  obtain ⟨text, hr, rfl⟩ := exists_of_simple h
  refine .line hσ (hspells text hr) ?_ rfl rfl
  rw [hpart]
  nofun

theorem adds_fillIfEmpty (hfills : Fills t) {body : List Statement} {d : Nat}
    (h : fillIfEmpty t body σ = .ok () τ) (hσ : σ.depth = level + d) :
    Adds t policy level (filling t.blockStyle d body) σ τ := by
  cases body with
  | cons s ss =>
    cases h
    cases t.blockStyle <;> exact .nil rfl rfl
  | nil =>
    unfold fillIfEmpty at h
    cases hstyle : t.blockStyle with
    | braces =>
      have hnone : t.emptyBlock = none := by
        by_contra hsome
        rw [hfills.mp (Option.isSome_iff_ne_none.mpr hsome)] at hstyle
        cases hstyle
      rw [hnone] at h
      cases h
      exact .nil rfl rfl
    | colon =>
      obtain ⟨text, htext⟩ := Option.isSome_iff_exists.mp (hfills.mpr hstyle)
      rw [htext] at h
      cases h
      exact .line hσ (.filler htext) nofun rfl rfl

theorem adds_closeBlock {d : Nat} (h : closeBlock t σ = .ok () τ) (hσ : σ.depth = level + d) :
    Adds t policy level (closing t.blockStyle d) σ τ := by
  unfold closeBlock at h
  cases hstyle : t.blockStyle with
  | braces =>
    rw [hstyle] at h
    cases h
    exact .line hσ .closing nofun rfl rfl
  | colon =>
    rw [hstyle] at h
    cases h
    exact .nil rfl rfl

/-- A block adds its header and, one level deeper, its body; what comes behind it goes on at the
depth of the header. -/
theorem exists_of_block (hfills : Fills t) {header : String} {body : List Statement}
    {m : Emission Unit} {d : Nat} {part : Part} (hσ : σ.depth = level + d)
    (hheader : Spells t part (opener t header)) (hpart : part.shape ≠ .comment)
    (hbody : ∀ σ τ : State, each t policy body σ = .ok () τ → σ.depth = level + (d + 1 : Nat) →
      Adds t policy level (allOutline t.blockStyle (d + 1) body) σ τ)
    (h : (do openBlock t header; fillIfEmpty t body; each t policy body; indent (-1); m) σ =
      .ok () τ) :
    ∃ υ, Adds t policy level
        (⟨d, part⟩ :: (filling t.blockStyle (d + 1) body ++
          allOutline t.blockStyle (d + 1) body)) σ υ ∧
      m υ = .ok () τ := by
  obtain ⟨_, σ₁, hopen, h⟩ := bind_eq_ok h
  obtain ⟨_, σ₂, hfill, h⟩ := bind_eq_ok h
  obtain ⟨_, σ₃, heach, h⟩ := bind_eq_ok h
  obtain ⟨_, σ₄, hindent, h⟩ := bind_eq_ok h
  have hdepth : σ₁.depth = σ.depth + 1 := by
    cases hopen
    rfl
  have hlines : σ₁.lines = σ.lines ++ [⟨σ.depth, opener t header⟩] := by
    cases hopen
    rfl
  have hinner : σ₁.depth = level + (d + 1 : Nat) := by
    omega
  have hadds : Adds t policy level _ σ₁ σ₂ := adds_fillIfEmpty hfills hfill hinner
  have hadds' := hadds.append (hbody σ₂ σ₃ heach (hadds.depth.trans hinner))
  cases hindent
  refine ⟨_, ⟨?_, ?_, ?_⟩, h⟩
  · show σ₃.depth + -1 = σ.depth
    have hkept := hadds'.depth
    omega
  · obtain ⟨ls, hls, hstands⟩ := hadds'.lines
    refine ⟨⟨σ.depth, opener t header⟩ :: ls, ?_, .cons ⟨hσ, hheader⟩ hstands⟩
    show σ₃.lines = _
    rw [hls, hlines, List.append_assoc]
    rfl
  · intro hfail e he
    rcases List.mem_cons.mp he with rfl | he
    · exact hpart
    · exact hadds'.kept hfail e he

/-- A block below a condition is there only if the condition has a text. -/
theorem exists_of_conditionBlock {c : Condition} {f : String → Emission Unit}
    (h : (conditionText t c >>= f) σ = .ok () τ) :
    ∃ text, condition t σ.bindings c = .ok text ∧ f text σ = .ok () τ := by
  obtain ⟨text, υ, hc, hf⟩ := bind_eq_ok h
  obtain ⟨htext, rfl⟩ := eq_of_lift_eq_ok hc
  exact ⟨text, htext, hf⟩

/-- A statement leaves what its own run adds, or the comment line in its place if it directly holds
a foreign value. -/
theorem adds_guarded (hkept : policy = .fail ∨ t.concatenation ≠ none) {s : Statement} {d : Nat}
    (hσ : σ.depth = level + d)
    (hs : ∀ τ : State, construct t policy s σ = .ok () τ →
      s.isNative = true ∧ Adds t policy level (outline t.blockStyle d s) σ τ)
    (h : guarded t policy (construct t policy s) σ = .ok () τ) :
    Adds t policy level (if s.isNative then outline t.blockStyle d s else [⟨d, .dropped s⟩]) σ τ := by
  rw [guarded_run] at h
  cases hrun : construct t policy s σ with
  | ok a υ =>
    rw [hrun] at h
    cases h
    obtain ⟨hnative, hadds⟩ := hs _ hrun
    rwa [if_pos hnative]
  | error failure υ =>
    rw [hrun] at h
    cases policy with
    | fail => cases h
    | comment =>
      cases failure with
      | template fault => cases h
      | numeral fault => cases h
      | unsupported kind target =>
        cases h
        have hforeign : ¬ s.isNative = true := by
          intro hnative
          have hconcat := hkept.resolve_left (nofun)
          exact unrefused_construct hconcat s hnative σ kind target υ hrun
        rw [if_neg hforeign]
        exact .line hσ (.dropped kind) nofun rfl rfl

mutual

theorem construct_adds (hfills : Fills t) (hkept : policy = .fail ∨ t.concatenation ≠ none) :
    ∀ (s : Statement) (d : Nat) (σ τ : State), construct t policy s σ = .ok () τ →
      σ.depth = level + d → s.isNative = true ∧ Adds t policy level (outline t.blockStyle d s) σ τ
  | .foreign kind data, d, σ, τ, h, _ => by
    rw [construct] at h
    cases h
  | .declare name e, d, σ, τ, h, hσ => by
    let σ₁ : State := { σ with bindings := σ.bindings.put name (valueKind σ.bindings e) }
    have hrun : (lift (declarationText t σ.bindings name e) >>= simple t) σ₁ = .ok () τ :=
      (declare_run name e σ).symm.trans h
    have hadds : Adds t policy level [⟨d, .simple (.declare name e)⟩] σ₁ τ :=
      adds_simple hrun hσ (fun _ => .declare) rfl
    obtain ⟨text, _, hlift, -⟩ := bind_eq_ok hrun
    obtain ⟨value, hvalue, -⟩ := exists_of_bind_eq_ok (eq_of_lift_eq_ok hlift).1
    exact ⟨isNative_of_expression hvalue, hadds.depth, hadds.lines, hadds.kept⟩
  | .assign name e, d, σ, τ, h, hσ => by
    rw [assign_run] at h
    obtain ⟨text, _, hlift, -⟩ := bind_eq_ok h
    obtain ⟨value, hvalue, -⟩ := exists_of_bind_eq_ok (eq_of_lift_eq_ok hlift).1
    exact ⟨isNative_of_expression hvalue, adds_simple h hσ (fun _ => .assign) rfl⟩
  | .evaluate e, d, σ, τ, h, hσ => by
    rw [evaluate_run] at h
    obtain ⟨text, _, hlift, -⟩ := bind_eq_ok h
    exact ⟨isNative_of_expression (eq_of_lift_eq_ok hlift).1,
      adds_simple h hσ (fun _ => .evaluate) rfl⟩
  | .print e, d, σ, τ, h, hσ => by
    rw [print_run] at h
    obtain ⟨text, _, hlift, -⟩ := bind_eq_ok h
    obtain ⟨template, -, hrest⟩ := exists_of_bind_eq_ok (eq_of_lift_eq_ok hlift).1
    obtain ⟨value, hvalue, -⟩ := exists_of_bind_eq_ok hrest
    exact ⟨isNative_of_expression hvalue, adds_simple h hσ (fun _ => .print) rfl⟩
  | .branch c body rest, d, σ, τ, h, hσ => by
    rw [construct] at h
    obtain ⟨text, htext, h⟩ := exists_of_conditionBlock h
    obtain ⟨υ, hblock, h⟩ := exists_of_block hfills hσ (.branch htext) nofun
      (fun σ τ => each_adds hfills hkept body (d + 1) σ τ) h
    obtain ⟨_, υ', hrest, hclose⟩ := bind_eq_ok h
    have hυ := hblock.depth.trans hσ
    obtain ⟨hnative, hadds⟩ := continueBranch_adds hfills hkept rest d υ υ' hrest hυ
    have hclosing : Adds t policy level _ υ' τ := adds_closeBlock hclose (hadds.depth.trans hυ)
    refine ⟨?_, ?_⟩
    · rw [Statement.isNative, isNative_of_condition htext, hnative]
      rfl
    · rw [outline]
      exact hblock.append (hadds.append hclosing)
  | .loop c body, d, σ, τ, h, hσ => by
    rw [construct] at h
    obtain ⟨text, htext, h⟩ := exists_of_conditionBlock h
    obtain ⟨υ, hblock, hclose⟩ := exists_of_block hfills hσ (.loop htext) nofun
      (fun σ τ => each_adds hfills hkept body (d + 1) σ τ) h
    refine ⟨isNative_of_condition htext, ?_⟩
    rw [outline]
    exact hblock.append (adds_closeBlock hclose (hblock.depth.trans hσ))

theorem continueBranch_adds (hfills : Fills t)
    (hkept : policy = .fail ∨ t.concatenation ≠ none) :
    ∀ (r : Otherwise) (d : Nat) (σ τ : State), continueBranch t policy r σ = .ok () τ →
      σ.depth = level + d → r.isNative = true ∧ Adds t policy level (restOutline t.blockStyle d r) σ τ
  | .nothing, d, σ, τ, h, _ => by
    rw [continueBranch] at h
    cases h
    exact ⟨rfl, .nil rfl rfl⟩
  | .last body, d, σ, τ, h, hσ => by
    rw [continueBranch] at h
    obtain ⟨υ, hblock, hend⟩ := exists_of_block (m := pure ()) hfills hσ .last nofun
      (fun σ τ => each_adds hfills hkept body (d + 1) σ τ) h
    cases hend
    exact ⟨rfl, hblock⟩
  | .elseIf c body rest, d, σ, τ, h, hσ => by
    rw [continueBranch] at h
    obtain ⟨text, htext, h⟩ := exists_of_conditionBlock h
    obtain ⟨υ, hblock, hrest⟩ := exists_of_block hfills hσ (.elseIf htext) nofun
      (fun σ τ => each_adds hfills hkept body (d + 1) σ τ) h
    obtain ⟨hnative, hadds⟩ :=
      continueBranch_adds hfills hkept rest d υ τ hrest (hblock.depth.trans hσ)
    refine ⟨?_, ?_⟩
    · rw [Otherwise.isNative, isNative_of_condition htext, hnative]
      rfl
    · rw [restOutline]
      exact hblock.append hadds

/-- Lines that statements add stand for their entries, whatever values stand in them. -/
theorem each_adds (hfills : Fills t) (hkept : policy = .fail ∨ t.concatenation ≠ none) :
    ∀ (ss : List Statement) (d : Nat) (σ τ : State), each t policy ss σ = .ok () τ →
      σ.depth = level + d → Adds t policy level (allOutline t.blockStyle d ss) σ τ
  | [], d, σ, τ, h, _ => by
    rw [each] at h
    cases h
    exact .nil rfl rfl
  | s :: ss, d, σ, τ, h, hσ => by
    rw [each] at h
    obtain ⟨_, υ, hs, hss⟩ := bind_eq_ok h
    have hadds := adds_guarded hkept hσ
      (fun τ hrun => construct_adds hfills hkept s d σ τ hrun hσ) hs
    rw [allOutline]
    exact hadds.append (each_adds hfills hkept ss d υ τ hss (hadds.depth.trans hσ))

end

/-- The text of a program is made of its lines, and these are its outline between the opening and the
closing lines. -/
theorem exists_lines_of_program (hfills : Fills t)
    (hkept : policy = .fail ∨ t.concatenation ≠ none) {ss : List Statement} {d : Nat}
    {out : String} (hlevel : t.bodyLevel = level + d)
    (h : EStateM.run (program t policy (.statements ss)) {} = .ok out σ) :
    out = σ.output t ∧
      (∃ ls, σ.lines = t.opening.map (⟨0, ·⟩) ++ ls ++ t.closing.map (⟨0, ·⟩) ∧
        List.Forall₂ (Stands t level) (bodyOutline t.blockStyle d ss) ls) ∧
      (policy = .fail → Uncommented (bodyOutline t.blockStyle d ss)) := by
  obtain ⟨υ, hbody, rfl, rfl⟩ := run_program_eq_ok_iff.mp h
  obtain ⟨_, υ', hfill, heach⟩ := bind_eq_ok hbody
  have hfilling : Adds t policy level _ (start t) υ' := adds_fillIfEmpty hfills hfill hlevel
  have hadds := hfilling.append
    (each_adds hfills hkept ss d υ' υ heach (hfilling.depth.trans hlevel))
  obtain ⟨ls, hls, hstands⟩ := hadds.lines
  refine ⟨rfl, ⟨ls, ?_, hstands⟩, hadds.kept⟩
  show υ.lines ++ _ = _
  rw [hls]
  rfl

end Boli.Outline

import Boli.Proofs.Emission

/-!
# Programs with a place for one statement

A context is a sequence of statements with a place for one more at any depth. The emitter reaches
the place through what stands before it (`Context.enter`). What stands behind it can be taken away
and replaced by statements at the end of the program (`Context.ending`).

Two statements that leave the emitter alike at the place leave it alike behind the whole
(`Context.outcome_plug`), also where a statement around the place is dropped later on.
-/

set_option autoImplicit false

namespace Boli

mutual

/-- Statements with a place for one more. -/
inductive Context where
  | here (before after : List Statement)
  /-- The place is in the first body of a branch. -/
  | branchBody (before : List Statement) (condition : Condition) (inner : Context)
    (rest : Otherwise) (after : List Statement)
  /-- The place is in what follows the first body of a branch. -/
  | branchRest (before : List Statement) (condition : Condition) (body : List Statement)
    (inner : RestContext) (after : List Statement)
  /-- The place is in the body of a loop. -/
  | loopBody (before : List Statement) (condition : Condition) (inner : Context)
    (after : List Statement)

/-- What follows the body of a branch, with a place for one statement. -/
inductive RestContext where
  | lastBody (inner : Context)
  | elseIfBody (condition : Condition) (inner : Context) (rest : Otherwise)
  | elseIfRest (condition : Condition) (body : List Statement) (inner : RestContext)

end

mutual

/-- The statements with one at the place. -/
def Context.plug (s : Statement) : Context → List Statement
  | .here before after => before ++ s :: after
  | .branchBody before c inner rest after => before ++ .branch c (inner.plug s) rest :: after
  | .branchRest before c body inner after => before ++ .branch c body (inner.plug s) :: after
  | .loopBody before c inner after => before ++ .loop c (inner.plug s) :: after

/-- The continuation of the branch with a statement at the place. -/
def RestContext.plug (s : Statement) : RestContext → Otherwise
  | .lastBody inner => .last (inner.plug s)
  | .elseIfBody c inner rest => .elseIf c (inner.plug s) rest
  | .elseIfRest c body inner => .elseIf c body (inner.plug s)

end

mutual

/-- Takes away everything behind the place, and ends the statements with others. -/
def Context.ending (after : List Statement) : Context → Context
  | .here before _ => .here before after
  | .branchBody before c inner _ _ => .branchBody before c (inner.ending []) .nothing after
  | .branchRest before c body inner _ => .branchRest before c body inner.ending after
  | .loopBody before c inner _ => .loopBody before c (inner.ending []) after

/-- Takes away everything behind the place. -/
def RestContext.ending : RestContext → RestContext
  | .lastBody inner => .lastBody (inner.ending [])
  | .elseIfBody c inner _ => .elseIfBody c (inner.ending []) .nothing
  | .elseIfRest c body inner => .elseIfRest c body inner.ending

end

open Emission

mutual

/-- The emitter's way to the place. -/
def Context.enter (t : Target) : Context → Emission Unit
  | .here before _ => each t .comment before
  | .branchBody before c inner _ _ => do
    each t .comment before
    openBlock t (t.ifKeyword ++ " " ++ (← conditionText t c))
    inner.enter t
  | .branchRest before c body inner _ => do
    each t .comment before
    openBlock t (t.ifKeyword ++ " " ++ (← conditionText t c))
    fillIfEmpty t body
    each t .comment body
    indent (-1)
    inner.enter t
  | .loopBody before c inner _ => do
    each t .comment before
    openBlock t (t.whileKeyword ++ " " ++ (← conditionText t c))
    inner.enter t

/-- The emitter's way from the end of a body to the place. -/
def RestContext.enter (t : Target) : RestContext → Emission Unit
  | .lastBody inner => do
    openBlock t (continuation t t.elseKeyword)
    inner.enter t
  | .elseIfBody c inner _ => do
    openBlock t (continuation t (t.elseIfKeyword ++ " " ++ (← conditionText t c)))
    inner.enter t
  | .elseIfRest c body inner => do
    openBlock t (continuation t (t.elseIfKeyword ++ " " ++ (← conditionText t c)))
    fillIfEmpty t body
    each t .comment body
    indent (-1)
    inner.enter t

end

mutual

/-- The emitter's way out, when nothing stands behind the place. -/
def Context.leave (t : Target) : Context → Emission Unit
  | .here _ _ => pure ()
  | .branchBody _ _ inner _ _ => do
    inner.leave t
    indent (-1)
    closeBlock t
  | .branchRest _ _ _ inner _ => do
    inner.leave t
    closeBlock t
  | .loopBody _ _ inner _ => do
    inner.leave t
    indent (-1)
    closeBlock t

/-- The emitter's way out to the end of the branch, when nothing stands behind the place. -/
def RestContext.leave (t : Target) : RestContext → Emission Unit
  | .lastBody inner => do
    inner.leave t
    indent (-1)
  | .elseIfBody _ inner _ => do
    inner.leave t
    indent (-1)
  | .elseIfRest _ _ inner => inner.leave t

end

/-! ## The way to the place and out of it -/

theorem Context.plug_ne_nil (s : Statement) (Γ : Context) : Γ.plug s ≠ [] := by
  cases Γ with
  | here before after => simp [Context.plug]
  | branchBody before c inner rest after => simp [Context.plug]
  | branchRest before c body inner after => simp [Context.plug]
  | loopBody before c inner after => simp [Context.plug]

theorem Context.fillIfEmpty_plug (t : Target) (s : Statement) (Γ : Context) :
    fillIfEmpty t (Γ.plug s) = pure () := by
  obtain ⟨s', ss, h⟩ := List.exists_cons_of_ne_nil (Γ.plug_ne_nil s)
  rw [h]
  rfl

mutual

theorem Context.enter_ending (t : Target) (after : List Statement) :
    ∀ Γ : Context, (Γ.ending after).enter t = Γ.enter t
  | .here _ _ => rfl
  | .branchBody _ _ inner _ _ => by
    rw [Context.ending, Context.enter, Context.enter, inner.enter_ending t []]
  | .branchRest _ _ _ inner _ => by
    rw [Context.ending, Context.enter, Context.enter, inner.enter_ending t]
  | .loopBody _ _ inner _ => by
    rw [Context.ending, Context.enter, Context.enter, inner.enter_ending t []]

theorem RestContext.enter_ending (t : Target) :
    ∀ Ρ : RestContext, Ρ.ending.enter t = Ρ.enter t
  | .lastBody inner => by
    rw [RestContext.ending, RestContext.enter, RestContext.enter, inner.enter_ending t []]
  | .elseIfBody _ inner _ => by
    rw [RestContext.ending, RestContext.enter, RestContext.enter, inner.enter_ending t []]
  | .elseIfRest _ _ inner => by
    rw [RestContext.ending, RestContext.enter, RestContext.enter, inner.enter_ending t]

end

mutual

theorem Context.ending_ending (after after' : List Statement) :
    ∀ Γ : Context, (Γ.ending after).ending after' = Γ.ending after'
  | .here _ _ => rfl
  | .branchBody _ _ inner _ _ => by
    rw [Context.ending, Context.ending, Context.ending, inner.ending_ending [] []]
  | .branchRest _ _ _ inner _ => by
    rw [Context.ending, Context.ending, Context.ending, inner.ending_ending]
  | .loopBody _ _ inner _ => by
    rw [Context.ending, Context.ending, Context.ending, inner.ending_ending [] []]

theorem RestContext.ending_ending : ∀ Ρ : RestContext, Ρ.ending.ending = Ρ.ending
  | .lastBody inner => by
    rw [RestContext.ending, RestContext.ending, inner.ending_ending [] []]
  | .elseIfBody _ inner _ => by
    rw [RestContext.ending, RestContext.ending, inner.ending_ending [] []]
  | .elseIfRest _ _ inner => by
    rw [RestContext.ending, RestContext.ending, inner.ending_ending]

end

theorem Context.plug_ending (s : Statement) (after : List Statement) (Γ : Context) :
    (Γ.ending after).plug s = (Γ.ending []).plug s ++ after := by
  cases Γ with
  | here before _ => simp [Context.ending, Context.plug]
  | branchBody before c inner rest _ => simp [Context.ending, Context.plug]
  | branchRest before c body inner _ => simp [Context.ending, Context.plug]
  | loopBody before c inner _ => simp [Context.ending, Context.plug]

section Runs

variable {t : Target} {B : Bindings → Bindings → Prop}

/-! A run that reaches the place has passed all that stands before it, and whatever else is put
behind that starts where it ended. -/

theorem exists_of_each {before : List Statement} {k : Emission Unit} {σ₀ σ : State}
    (h : (each t .comment before >>= fun _ => k) σ₀ = .ok () σ) :
    ∃ σ₁, k σ₁ = .ok () σ ∧
      ∀ ss, each t .comment (before ++ ss) σ₀ = each t .comment ss σ₁ := by
  obtain ⟨_, σ₁, hbefore, hk⟩ := bind_eq_ok h
  refine ⟨σ₁, hk, ?_⟩
  intro ss
  rw [each_append, bind_of_ok hbefore]

theorem exists_of_heading {header : Emission String} {open' : String → String}
    {k : Emission Unit} {σ₀ σ : State}
    (h : (do openBlock t (open' (← header)); k) σ₀ = .ok () σ) :
    ∃ σ₁, k σ₁ = .ok () σ ∧
      ∀ k' : Emission Unit, (do openBlock t (open' (← header)); k') σ₀ = k' σ₁ := by
  obtain ⟨text, σ₁, hheader, h⟩ := bind_eq_ok h
  obtain ⟨_, σ₂, hopen, hk⟩ := bind_eq_ok h
  refine ⟨σ₂, hk, ?_⟩
  intro k'
  rw [bind_of_ok hheader, bind_of_ok hopen]

theorem exists_of_block {header : Emission String} {open' : String → String}
    {body : List Statement} {k : Emission Unit} {σ₀ σ : State}
    (h : (do
      openBlock t (open' (← header)); fillIfEmpty t body; each t .comment body; indent (-1); k)
      σ₀ = .ok () σ) :
    ∃ σ₁, k σ₁ = .ok () σ ∧ ∀ k' : Emission Unit,
      (do openBlock t (open' (← header)); fillIfEmpty t body; each t .comment body; indent (-1); k')
        σ₀ = k' σ₁ := by
  obtain ⟨σ₁, h, hheading⟩ := exists_of_heading h
  obtain ⟨_, σ₂, hfill, h⟩ := bind_eq_ok h
  obtain ⟨_, σ₃, hbody, h⟩ := bind_eq_ok h
  obtain ⟨_, σ₄, hindent, hk⟩ := bind_eq_ok h
  refine ⟨σ₄, hk, ?_⟩
  intro k'
  rw [hheading, bind_of_ok hfill, bind_of_ok hbody, bind_of_ok hindent]

mutual

theorem Context.leave_related :
    ∀ Γ : Context, Related (Alike B) (Γ.leave t) (Γ.leave t)
  | .here _ _ => .pure ()
  | .branchBody _ _ inner _ _ =>
    inner.leave_related.bind fun _ => (alike.indent_related _).bind fun _ =>
      alike.closeBlock_related
  | .branchRest _ _ _ inner _ => inner.leave_related.bind fun _ => alike.closeBlock_related
  | .loopBody _ _ inner _ =>
    inner.leave_related.bind fun _ => (alike.indent_related _).bind fun _ =>
      alike.closeBlock_related

theorem RestContext.leave_related :
    ∀ Ρ : RestContext, Related (Alike B) (Ρ.leave t) (Ρ.leave t)
  | .lastBody inner => inner.leave_related.bind fun _ => alike.indent_related _
  | .elseIfBody _ inner _ => inner.leave_related.bind fun _ => alike.indent_related _
  | .elseIfRest _ _ inner => inner.leave_related

end

mutual

/-- Statements that leave the emitter alike at the place leave it alike behind the whole. -/
theorem Context.outcome_plug (h : Respects t B) {s s' : Statement} {σ : State}
    (hs : Outcome (Alike B) (statement t .comment s σ) (statement t .comment s' σ)) :
    ∀ (Γ : Context) {σ₀ : State}, Γ.enter t σ₀ = .ok () σ →
      Outcome (Alike B) (each t .comment (Γ.plug s) σ₀) (each t .comment (Γ.plug s') σ₀)
  | .here before after, σ₀, he => by
    rw [Context.enter] at he
    rw [Context.plug, Context.plug, each_append, each_append, bind_of_ok he, bind_of_ok he, each,
      each]
    exact hs.bind fun _ => alike.each_related h after
  | .branchBody before c inner rest after, σ₀, he => by
    rw [Context.enter] at he
    obtain ⟨σ₁, he, hbefore⟩ := exists_of_each he
    obtain ⟨σ₂, he, hopen⟩ := exists_of_heading he
    rw [Context.plug, Context.plug, hbefore, hbefore, each, each]
    -- the branch itself may be dropped, which takes the same lines back in both runs
    refine (Outcome.guarded rfl rfl ?_).bind fun _ => alike.each_related h after
    rw [construct, construct, hopen, hopen, inner.fillIfEmpty_plug, inner.fillIfEmpty_plug]
    exact (inner.outcome_plug h hs he).bind fun _ => (alike.indent_related _).bind fun _ =>
      (alike.continueBranch_related h rest).bind fun _ => alike.closeBlock_related
  | .branchRest before c body inner after, σ₀, he => by
    rw [Context.enter] at he
    obtain ⟨σ₁, he, hbefore⟩ := exists_of_each he
    obtain ⟨σ₂, he, hblock⟩ := exists_of_block he
    rw [Context.plug, Context.plug, hbefore, hbefore, each, each]
    refine (Outcome.guarded rfl rfl ?_).bind fun _ => alike.each_related h after
    rw [construct, construct, hblock, hblock]
    exact (inner.outcome_plug h hs he).bind fun _ => alike.closeBlock_related
  | .loopBody before c inner after, σ₀, he => by
    rw [Context.enter] at he
    obtain ⟨σ₁, he, hbefore⟩ := exists_of_each he
    obtain ⟨σ₂, he, hopen⟩ := exists_of_heading he
    rw [Context.plug, Context.plug, hbefore, hbefore, each, each]
    refine (Outcome.guarded rfl rfl ?_).bind fun _ => alike.each_related h after
    rw [construct, construct, hopen, hopen, inner.fillIfEmpty_plug, inner.fillIfEmpty_plug]
    exact (inner.outcome_plug h hs he).bind fun _ => (alike.indent_related _).bind fun _ =>
      alike.closeBlock_related

theorem RestContext.outcome_plug (h : Respects t B) {s s' : Statement} {σ : State}
    (hs : Outcome (Alike B) (statement t .comment s σ) (statement t .comment s' σ)) :
    ∀ (Ρ : RestContext) {σ₀ : State}, Ρ.enter t σ₀ = .ok () σ →
      Outcome (Alike B) (continueBranch t .comment (Ρ.plug s) σ₀)
        (continueBranch t .comment (Ρ.plug s') σ₀)
  | .lastBody inner, σ₀, he => by
    rw [RestContext.enter] at he
    obtain ⟨_, σ₁, hopen, he⟩ := bind_eq_ok he
    rw [RestContext.plug, RestContext.plug, continueBranch, continueBranch, bind_of_ok hopen,
      bind_of_ok hopen, inner.fillIfEmpty_plug, inner.fillIfEmpty_plug]
    exact (inner.outcome_plug h hs he).bind fun _ => alike.indent_related _
  | .elseIfBody c inner rest, σ₀, he => by
    rw [RestContext.enter] at he
    obtain ⟨σ₁, he, hopen⟩ := exists_of_heading he
    rw [RestContext.plug, RestContext.plug, continueBranch, continueBranch, hopen, hopen,
      inner.fillIfEmpty_plug, inner.fillIfEmpty_plug]
    exact (inner.outcome_plug h hs he).bind fun _ => (alike.indent_related _).bind fun _ =>
      alike.continueBranch_related h rest
  | .elseIfRest c body inner, σ₀, he => by
    rw [RestContext.enter] at he
    obtain ⟨σ₁, he, hblock⟩ := exists_of_block he
    rw [RestContext.plug, RestContext.plug, continueBranch, continueBranch, hblock, hblock]
    exact inner.outcome_plug h hs he

end

theorem exists_closeBlock_eq_ok (t : Target) (σ : State) : ∃ τ, closeBlock t σ = .ok () τ := by
  unfold closeBlock
  cases t.blockStyle with
  | braces => exact ⟨_, rfl⟩
  | colon => exact ⟨_, rfl⟩

theorem guarded_of_ok {policy : Policy} {m : Emission Unit} {σ τ : State} (h : m σ = .ok () τ) :
    guarded t policy m σ = .ok () τ := by
  rw [guarded_run, h]

mutual

/-- The ways to the place from states that the target cannot tell apart go alike. -/
theorem Context.enter_related (h : Respects t B) :
    ∀ Γ : Context, Related (Alike B) (Γ.enter t) (Γ.enter t)
  | .here before _ => alike.each_related h before
  | .branchBody before c inner _ _ => by
    rw [Context.enter]
    exact (alike.each_related h before).bind fun _ =>
      (alike.conditionText_related h c).bind fun _ => (alike.openBlock_related _).bind fun _ =>
        inner.enter_related h
  | .branchRest before c body inner _ => by
    rw [Context.enter]
    exact (alike.each_related h before).bind fun _ =>
      alike.block_related (alike.conditionText_related h c) (alike.each_related h body)
        (inner.enter_related h)
  | .loopBody before c inner _ => by
    rw [Context.enter]
    exact (alike.each_related h before).bind fun _ =>
      (alike.conditionText_related h c).bind fun _ => (alike.openBlock_related _).bind fun _ =>
        inner.enter_related h

theorem RestContext.enter_related (h : Respects t B) :
    ∀ Ρ : RestContext, Related (Alike B) (Ρ.enter t) (Ρ.enter t)
  | .lastBody inner => by
    rw [RestContext.enter]
    exact (alike.openBlock_related _).bind fun _ => inner.enter_related h
  | .elseIfBody c inner _ => by
    rw [RestContext.enter]
    exact (alike.conditionText_related h c).bind fun _ => (alike.openBlock_related _).bind fun _ =>
      inner.enter_related h
  | .elseIfRest c body inner => by
    rw [RestContext.enter]
    exact alike.block_related (alike.conditionText_related h c) (alike.each_related h body)
      (inner.enter_related h)

end

mutual

/-- When nothing stands behind the place, the emitter goes from the statement there straight out. -/
theorem Context.each_plug_ending {s : Statement} {σ σ' : State}
    (hs : statement t .comment s σ = .ok () σ') :
    ∀ (Γ : Context) {σ₀ : State}, Γ.enter t σ₀ = .ok () σ →
      ∃ τ, Γ.leave t σ' = .ok () τ ∧ each t .comment ((Γ.ending []).plug s) σ₀ = .ok () τ
  | .here before after, σ₀, he => by
    rw [Context.enter] at he
    refine ⟨σ', rfl, ?_⟩
    rw [Context.ending, Context.plug, each_append, bind_of_ok he, each]
    exact bind_of_ok hs
  | .branchBody before c inner rest after, σ₀, he => by
    rw [Context.enter] at he
    obtain ⟨σ₁, he, hbefore⟩ := exists_of_each he
    obtain ⟨σ₂, he, hopen⟩ := exists_of_heading he
    obtain ⟨τ₁, hleave, hinner⟩ := inner.each_plug_ending hs he
    obtain ⟨τ, hτ⟩ := exists_closeBlock_eq_ok t { τ₁ with depth := τ₁.depth + -1 }
    refine ⟨τ, by rw [Context.leave, bind_of_ok hleave]; exact hτ, ?_⟩
    rw [Context.ending, Context.plug, hbefore, each]
    apply bind_of_ok (guarded_of_ok ?_)
    rw [construct, hopen, Context.fillIfEmpty_plug]
    exact (bind_of_ok hinner).trans hτ
  | .branchRest before c body inner after, σ₀, he => by
    rw [Context.enter] at he
    obtain ⟨σ₁, he, hbefore⟩ := exists_of_each he
    obtain ⟨σ₂, he, hblock⟩ := exists_of_block he
    obtain ⟨τ₁, hleave, hinner⟩ := inner.continueBranch_plug_ending hs he
    obtain ⟨τ, hτ⟩ := exists_closeBlock_eq_ok t τ₁
    refine ⟨τ, by rw [Context.leave, bind_of_ok hleave]; exact hτ, ?_⟩
    rw [Context.ending, Context.plug, hbefore, each]
    apply bind_of_ok (guarded_of_ok ?_)
    rw [construct, hblock]
    exact (bind_of_ok hinner).trans hτ
  | .loopBody before c inner after, σ₀, he => by
    rw [Context.enter] at he
    obtain ⟨σ₁, he, hbefore⟩ := exists_of_each he
    obtain ⟨σ₂, he, hopen⟩ := exists_of_heading he
    obtain ⟨τ₁, hleave, hinner⟩ := inner.each_plug_ending hs he
    obtain ⟨τ, hτ⟩ := exists_closeBlock_eq_ok t { τ₁ with depth := τ₁.depth + -1 }
    refine ⟨τ, by rw [Context.leave, bind_of_ok hleave]; exact hτ, ?_⟩
    rw [Context.ending, Context.plug, hbefore, each]
    apply bind_of_ok (guarded_of_ok ?_)
    rw [construct, hopen, Context.fillIfEmpty_plug]
    exact (bind_of_ok hinner).trans hτ

theorem RestContext.continueBranch_plug_ending {s : Statement} {σ σ' : State}
    (hs : statement t .comment s σ = .ok () σ') :
    ∀ (Ρ : RestContext) {σ₀ : State}, Ρ.enter t σ₀ = .ok () σ →
      ∃ τ, Ρ.leave t σ' = .ok () τ ∧
        continueBranch t .comment (Ρ.ending.plug s) σ₀ = .ok () τ
  | .lastBody inner, σ₀, he => by
    rw [RestContext.enter] at he
    obtain ⟨_, σ₁, hopen, he⟩ := bind_eq_ok he
    obtain ⟨τ₁, hleave, hinner⟩ := inner.each_plug_ending hs he
    refine ⟨_, by rw [RestContext.leave]; exact bind_of_ok hleave, ?_⟩
    rw [RestContext.ending, RestContext.plug, continueBranch, bind_of_ok hopen,
      Context.fillIfEmpty_plug]
    exact bind_of_ok hinner
  | .elseIfBody c inner rest, σ₀, he => by
    rw [RestContext.enter] at he
    obtain ⟨σ₁, he, hopen⟩ := exists_of_heading he
    obtain ⟨τ₁, hleave, hinner⟩ := inner.each_plug_ending hs he
    refine ⟨_, by rw [RestContext.leave]; exact bind_of_ok hleave, ?_⟩
    rw [RestContext.ending, RestContext.plug, continueBranch, hopen, Context.fillIfEmpty_plug]
    exact bind_of_ok hinner
  | .elseIfRest c body inner, σ₀, he => by
    rw [RestContext.enter] at he
    obtain ⟨σ₁, he, hblock⟩ := exists_of_block he
    obtain ⟨τ, hleave, hinner⟩ := inner.continueBranch_plug_ending hs he
    refine ⟨τ, hleave, ?_⟩
    rw [RestContext.ending, RestContext.plug, continueBranch, hblock]
    exact hinner

end

end Runs

end Boli

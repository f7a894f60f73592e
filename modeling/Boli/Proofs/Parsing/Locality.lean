import Boli.Proofs.Parsing

/-!
# How far the parser looks

A run of the parser takes a text off the front of its tokens and looks at the one token behind it.
`Local` says so of a run and its end, be it a result or a failure: with other tokens behind that one
the run is the same. All functions of the parser are local, in both modes, and all that read a
phrase which is not empty take a token whenever they have a result (`Takes`).

The functions on nested statements take their fuel from the number of tokens that are left, which
other tokens behind may change. So they are shown local for any fuel first (`statementUpTo_takes`
and its companions), and then not to depend on the fuel once there is enough of it
(`run_statementUpTo_succ` and its companions).
-/

set_option autoImplicit false

namespace Boli.Parser

open Grammar (next)

variable {α β : Type} {s : State}

/-! ## Ends of runs -/

/-- The state in which a run ends. -/
def lastState : EStateM.Result Failure State α → State
  | .ok _ s => s
  | .error _ s => s

/-- The end of a run with other tokens left. -/
def leaving (rest : List Token) : EStateM.Result Failure State α → EStateM.Result Failure State α
  | .ok a s => .ok a { s with rest := rest }
  | .error failure s => .error failure { s with rest := rest }

/-- From a state on the parser takes a text, and it ends the same way whatever stands behind the
token that follows the text. -/
def Local (p : Parser α) (s : State) : Prop :=
  ∃ text, s.rest = text ++ (lastState (p.run s)).rest ∧
    (lastState (p.run s)).position = s.position + text.length ∧
    ∀ rest, next rest = next (lastState (p.run s)).rest →
      p.run { s with rest := text ++ rest } = leaving rest (p.run s)

/-- Behind a text the token that stands next is the first of the text, if there is one. -/
theorem next_append_congr {rest rest' : List Token} (h : next rest = next rest')
    (text : List Token) : next (text ++ rest) = next (text ++ rest') := by
  cases text with
  | nil => exact h
  | cons t text => rfl

/-- Something is left, unless the end stands next. -/
theorem length_pos_of_kind (h : (next s.rest).kind ≠ .eof) : 0 < s.rest.length := by
  rw [List.length_pos_iff]
  intro hnil
  exact h (by rw [hnil]; rfl)

/-- What is left when a local parser has a result is no more than before. -/
theorem Local.length_le {p : Parser α} (h : Local p s) {a : α} {s' : State}
    (hrun : p.run s = .ok a s') : s'.rest.length ≤ s.rest.length := by
  obtain ⟨text, hrest, -, -⟩ := h
  rw [hrun] at hrest
  have hlength := congrArg List.length hrest
  rw [List.length_append] at hlength
  exact hlength ▸ Nat.le_add_left _ _

/-! ## Single tokens -/

namespace Local

variable {p : Parser α} {f : α → Parser β}

protected theorem pure (a : α) : Local (pure a) s := ⟨[], rfl, rfl, fun _ _ => rfl⟩

protected theorem fail (expected : Expectation) : Local (fail expected : Parser α) s := by
  refine ⟨[], rfl, rfl, ?_⟩
  intro rest hnext
  show EStateM.Result.error (Failure.unexpected expected (next rest)) _ =
    EStateM.Result.error (Failure.unexpected expected (next s.rest)) _
  rw [show next rest = next s.rest from hnext]
  rfl

/-- A parser goes on where another has stopped. The token behind the first text is in front of the
second one. -/
protected theorem bind (hp : Local p s) (hf : ∀ a s', p.run s = .ok a s' → Local (f a) s') :
    Local (p >>= f) s := by
  obtain ⟨text, hrest, hposition, hbehind⟩ := hp
  cases hrun : p.run s with
  | error failure s' =>
    have hbind : (p >>= f).run s = .error failure s' := by rw [EStateM.run_bind, hrun]
    rw [hrun] at hrest hposition hbehind
    refine ⟨text, by rw [hbind]; exact hrest, by rw [hbind]; exact hposition, ?_⟩
    intro rest hnext
    rw [hbind] at hnext ⊢
    rw [EStateM.run_bind, hbehind rest hnext]
    rfl
  | ok a s' =>
    have hbind : (p >>= f).run s = (f a).run s' := by rw [EStateM.run_bind, hrun]
    rw [hrun] at hrest hposition hbehind
    obtain ⟨more, hmore, hposition', hbehind'⟩ := hf a s' hrun
    change s.rest = text ++ s'.rest at hrest
    change s'.position = s.position + text.length at hposition
    refine ⟨text ++ more, ?_, ?_, ?_⟩
    · rw [hbind, hrest, List.append_assoc, ← hmore]
    · rw [hbind, hposition', hposition, List.length_append, Nat.add_assoc]
    · intro rest hnext
      rw [hbind] at hnext ⊢
      have hfirst : next (more ++ rest) = next s'.rest := by
        rw [hmore]
        exact next_append_congr hnext more
      rw [List.append_assoc, EStateM.run_bind, hbehind _ hfirst]
      exact hbehind' rest hnext

/-- A test looks at the next token and decides how it goes on. -/
theorem test {a : α} (hp : ∀ s' : State, next s'.rest = next s.rest → p.run s' = .ok a s')
    (hf : Local (f a) s) : Local (p >>= f) s := by
  have hrun : p.run s = .ok a s := hp s rfl
  refine Local.bind ⟨[], by rw [hrun]; rfl, by rw [hrun]; rfl, ?_⟩ ?_
  · intro rest hnext
    rw [hrun] at hnext ⊢
    exact hp _ hnext
  · intro a' s' hrun'
    rw [hrun] at hrun'
    cases hrun'
    exact hf

protected theorem current {f : Token → Parser β} (hf : Local (f (next s.rest)) s) :
    Local (current >>= f) s :=
  test (fun s' hnext => by rw [run_current, hnext]) hf

protected theorem check {kind : Token.Kind} {f : Bool → Parser β}
    (hf : Local (f (decide ((next s.rest).kind = kind))) s) : Local (check kind >>= f) s :=
  test (fun s' hnext => by rw [run_check, hnext]) hf

protected theorem checkValue {kind : Token.Kind} {value : String} {f : Bool → Parser β}
    (hf : Local (f (decide ((next s.rest).kind = kind) && decide ((next s.rest).value = value))) s) :
    Local (checkValue kind value >>= f) s :=
  test (fun s' hnext => by rw [run_checkValue, hnext]) hf

protected theorem atEnd {f : Bool → Parser β}
    (hf : Local (f (decide ((next s.rest).kind = .eof))) s) : Local (atEnd >>= f) s :=
  test (fun s' hnext => by rw [run_atEnd, hnext]) hf

theorem andReturn (hp : Local p s) (g : α → β) : Local (p >>= fun a => pure (g a)) s :=
  hp.bind fun a _ _ => .pure (g a)

end Local

/-- The parser is local and takes a token if it has a result. -/
structure Takes (p : Parser α) (s : State) : Prop where
  isLocal : Local p s
  length_lt : ∀ a s', p.run s = .ok a s' → s'.rest.length < s.rest.length

namespace Takes

variable {p : Parser α} {f : α → Parser β}

protected theorem fail (expected : Expectation) : Takes (fail expected : Parser α) s :=
  ⟨.fail expected, nofun⟩

/-- The first of two parsers takes a token. -/
protected theorem bind (hp : Takes p s) (hf : ∀ a s', p.run s = .ok a s' → Local (f a) s') :
    Takes (p >>= f) s := by
  refine ⟨hp.isLocal.bind hf, ?_⟩
  intro b s'' hrun
  rw [EStateM.run_bind] at hrun
  cases hfirst : p.run s with
  | error failure s' => rw [hfirst] at hrun; cases hrun
  | ok a s' =>
    rw [hfirst] at hrun
    exact Nat.lt_of_le_of_lt ((hf a s' hfirst).length_le hrun) (hp.length_lt a s' hfirst)

theorem andReturn (hp : Takes p s) (g : α → β) : Takes (p >>= fun a => pure (g a)) s :=
  hp.bind fun a _ _ => .pure (g a)

protected theorem current {f : Token → Parser β} (hf : Takes (f (next s.rest)) s) :
    Takes (current >>= f) s :=
  ⟨.current hf.isLocal, hf.length_lt⟩

protected theorem check {kind : Token.Kind} {f : Bool → Parser β}
    (hf : Takes (f (decide ((next s.rest).kind = kind))) s) : Takes (check kind >>= f) s :=
  ⟨.check hf.isLocal, hf.length_lt⟩

protected theorem checkValue {kind : Token.Kind} {value : String} {f : Bool → Parser β}
    (hf : Takes (f (decide ((next s.rest).kind = kind) && decide ((next s.rest).value = value))) s) :
    Takes (checkValue kind value >>= f) s :=
  ⟨.checkValue hf.isLocal, hf.length_lt⟩

protected theorem atEnd {f : Bool → Parser β}
    (hf : Takes (f (decide ((next s.rest).kind = .eof))) s) : Takes (atEnd >>= f) s :=
  ⟨.atEnd hf.isLocal, hf.length_lt⟩

/-- The token that stands next is taken, unless nothing is left. -/
protected theorem advance {kind : Token.Kind} (h : (next s.rest).kind = kind) (hkind : kind ≠ .eof) :
    Takes advance s := by
  obtain ⟨_ | ⟨t, ts⟩, n, skipped⟩ := s
  · exact absurd h.symm hkind
  · refine ⟨⟨[t], rfl, rfl, fun _ _ => rfl⟩, ?_⟩
    intro u s' hrun
    cases hrun
    exact Nat.lt_succ_self _

protected theorem skip (h : (next s.rest).kind ≠ .eof) : Takes skip s := by
  obtain ⟨_ | ⟨t, ts⟩, n, skipped⟩ := s
  · exact absurd rfl h
  · refine ⟨⟨[t], rfl, rfl, fun _ _ => rfl⟩, ?_⟩
    intro u s' hrun
    cases hrun
    exact Nat.lt_succ_self _

protected theorem expect {kind : Token.Kind} (hkind : kind ≠ .eof) : Takes (expect kind) s := by
  apply Takes.check
  split
  next h => exact .advance (of_decide_eq_true h) hkind
  next => exact .fail _

protected theorem expectValue (value : String) : Takes (expectValue .operator value) s := by
  apply Takes.checkValue
  split
  next h =>
    rw [Bool.and_eq_true] at h
    exact .advance (of_decide_eq_true h.1) (by decide)
  next => exact .fail _

end Takes

/-- An optional token may be missing. -/
protected theorem Local.optional {kind : Token.Kind} (hkind : kind ≠ .eof) :
    Local (optional kind) s := by
  apply Local.check
  split
  next h => exact ((Takes.advance (of_decide_eq_true h) hkind).andReturn _).isLocal
  next => exact .pure _

/-! ## Expressions and simple statements -/

theorem numberOf_local (t : Token) (s : State) : Local (numberOf t) s := by
  unfold numberOf
  cases Text.Numeral.read t.value with
  | ok n => exact .pure _
  | error fault => exact ⟨[], rfl, rfl, fun _ _ => rfl⟩

theorem primary_takes (s : State) : Takes primary s := by
  apply Takes.current
  split
  next h => exact (Takes.advance h (by decide)).bind fun _ _ _ => numberOf_local _ _
  next h => exact (Takes.advance h (by decide)).andReturn _
  next h => exact (Takes.advance h (by decide)).andReturn _
  next => exact .fail _

theorem expression_takes (s : State) : Takes expression s := by
  refine (primary_takes s).bind fun left s₁ _ => ?_
  apply Local.current
  split
  next h =>
    refine ((Takes.advance h.1 (by decide)).bind fun _ s₂ _ => ?_).isLocal
    exact (primary_takes s₂).isLocal.andReturn _
  next => exact .pure _

theorem condition_takes (s : State) : Takes condition s := by
  refine (primary_takes s).bind fun left s₁ _ => ?_
  apply Local.current
  split
  next h =>
    refine ((Takes.advance h.1 (by decide)).bind fun _ s₂ _ => ?_).isLocal
    exact (primary_takes s₂).isLocal.andReturn _
  next => exact .fail _

theorem declaration_takes (s : State) : Takes declaration s := by
  refine (Takes.expect (by decide)).bind fun _ s₁ _ => ?_
  refine (Takes.expect (by decide)).isLocal.bind fun name s₂ _ => ?_
  refine (Takes.expectValue _).isLocal.bind fun _ s₃ _ => ?_
  refine (expression_takes s₃).isLocal.bind fun value s₄ _ => ?_
  exact (Local.optional (by decide)).andReturn _

theorem printing_takes (s : State) : Takes printing s := by
  refine (Takes.expect (by decide)).bind fun _ s₁ _ => ?_
  refine (expression_takes s₁).isLocal.bind fun value s₂ _ => ?_
  exact (Local.optional (by decide)).andReturn _

theorem simple_takes (s : State) : Takes simple s := by
  refine (Takes.expect (by decide)).bind fun name s₁ _ => ?_
  apply Local.checkValue
  split
  next h =>
    rw [Bool.and_eq_true] at h
    refine ((Takes.advance (of_decide_eq_true h.1) (by decide)).bind fun _ s₂ _ => ?_).isLocal
    refine (expression_takes s₂).isLocal.bind fun value s₃ _ => ?_
    exact (Local.optional (by decide)).andReturn _
  next => exact (Local.optional (by decide)).andReturn _

/-! ## Statements

The fuel is the same in all runs that are compared, so that a run that ends for want of fuel does so
whatever stands behind. -/

variable {mode : Strictness}

mutual

theorem statementUpTo_takes : ∀ (fuel : Nat) (s : State), Takes (statementUpTo mode fuel) s
  | 0, _ => .fail _
  | fuel + 1, s => by
    apply Takes.current
    split
    · exact (declaration_takes s).andReturn _
    · exact (printing_takes s).andReturn _
    · exact (branchUpTo_takes fuel s).andReturn _
    · exact (loopUpTo_takes fuel s).andReturn _
    · exact (simple_takes s).andReturn _
    · exact .fail _
    next heof =>
      cases mode with
      | strict => exact .fail _
      | permissive => exact (Takes.skip heof).andReturn _

theorem branchUpTo_takes : ∀ (fuel : Nat) (s : State), Takes (branchUpTo mode fuel) s
  | 0, _ => .fail _
  | fuel + 1, s => by
    refine (Takes.expect (by decide)).bind fun _ s₁ _ => ?_
    refine (condition_takes s₁).isLocal.bind fun c s₂ _ => ?_
    refine (blockUpTo_takes fuel s₂).isLocal.bind fun body s₃ _ => ?_
    exact (otherwiseUpTo_local fuel s₃).andReturn _

theorem otherwiseUpTo_local : ∀ (fuel : Nat) (s : State), Local (otherwiseUpTo mode fuel) s
  | 0, _ => .fail _
  | fuel + 1, s => by
    apply Local.check
    split
    next h =>
      refine (Takes.advance (of_decide_eq_true h) (by decide)).isLocal.bind fun _ s₁ _ => ?_
      refine (condition_takes s₁).isLocal.bind fun c s₂ _ => ?_
      refine (blockUpTo_takes fuel s₂).isLocal.bind fun body s₃ _ => ?_
      exact (otherwiseUpTo_local fuel s₃).andReturn _
    next =>
      apply Local.check
      split
      next h =>
        refine (Takes.advance (of_decide_eq_true h) (by decide)).isLocal.bind fun _ s₁ _ => ?_
        exact (blockUpTo_takes fuel s₁).isLocal.andReturn _
      next => exact .pure _

theorem loopUpTo_takes : ∀ (fuel : Nat) (s : State), Takes (loopUpTo mode fuel) s
  | 0, _ => .fail _
  | fuel + 1, s => by
    refine (Takes.expect (by decide)).bind fun _ s₁ _ => ?_
    refine (condition_takes s₁).isLocal.bind fun c s₂ _ => ?_
    refine (Local.optional (by decide)).bind fun _ s₃ _ => ?_
    exact (blockUpTo_takes fuel s₃).isLocal.andReturn _

theorem blockUpTo_takes : ∀ (fuel : Nat) (s : State), Takes (blockUpTo mode fuel) s
  | 0, _ => .fail _
  | fuel + 1, s => by
    apply Takes.check
    split
    next h =>
      refine (Takes.advance (of_decide_eq_true h) (by decide)).bind fun _ s₁ _ => ?_
      exact (bracedUpTo_takes fuel s₁).isLocal
    next => exact (statementUpTo_takes fuel s).andReturn _

theorem bracedUpTo_takes : ∀ (fuel : Nat) (s : State), Takes (bracedUpTo mode fuel) s
  | 0, _ => .fail _
  | fuel + 1, s => by
    apply Takes.check
    split
    next h => exact (Takes.advance (of_decide_eq_true h) (by decide)).andReturn _
    next =>
      apply Takes.atEnd
      split
      next => exact .fail _
      next =>
        refine (statementUpTo_takes fuel s).bind fun first s₁ _ => ?_
        exact (bracedUpTo_takes fuel s₁).isLocal.andReturn _

end

/-! ## Fuel

Two runs of a sequence are the same when those of its parts are. What is left only shrinks, so that
a bound on the fuel at the start of a statement gives one for each of its parts. -/

/-- Two parsers in sequence run as two others do, when the first ones do and the second ones do
behind them. -/
theorem run_bind_congr {p p' : Parser α} {f f' : α → Parser β} (hp : p.run s = p'.run s)
    (hf : ∀ a s', p.run s = .ok a s' → (f a).run s' = (f' a).run s') :
    (p >>= f).run s = (p' >>= f').run s := by
  rw [EStateM.run_bind, EStateM.run_bind, ← hp]
  cases hrun : p.run s with
  | ok a s' => exact hf a s' hrun
  | error failure s' => rfl

mutual

/-- Three units of fuel for each token that is left and one more are enough for a statement. -/
theorem run_statementUpTo_succ : ∀ (fuel : Nat) (s : State), 3 * s.rest.length + 1 ≤ fuel →
    (statementUpTo mode (fuel + 1)).run s = (statementUpTo mode fuel).run s
  | 0, _, h => absurd h (Nat.not_succ_le_zero _)
  | fuel + 1, s, h => by
    refine run_bind_congr rfl fun t s' hcurrent => ?_
    rw [run_current] at hcurrent
    cases hcurrent
    split
    · rfl
    · rfl
    next hkind =>
      have hpos := length_pos_of_kind (s := s) (by rw [hkind]; decide)
      exact run_bind_congr (run_branchUpTo_succ fuel s hpos (by omega)) fun _ _ _ => rfl
    next hkind =>
      have hpos := length_pos_of_kind (s := s) (by rw [hkind]; decide)
      exact run_bind_congr (run_loopUpTo_succ fuel s hpos (by omega)) fun _ _ _ => rfl
    · rfl
    · rfl
    · rfl

theorem run_branchUpTo_succ : ∀ (fuel : Nat) (s : State), 0 < s.rest.length →
    3 * s.rest.length ≤ fuel → (branchUpTo mode (fuel + 1)).run s = (branchUpTo mode fuel).run s
  | 0, _, hpos, h => by omega
  | fuel + 1, s, _, h => by
    refine run_bind_congr rfl fun _ s₁ hstart => ?_
    have h₁ := (Takes.expect (by decide)).length_lt _ _ hstart
    refine run_bind_congr rfl fun c s₂ hc => ?_
    have h₂ := (condition_takes s₁).length_lt _ _ hc
    refine run_bind_congr (run_blockUpTo_succ fuel s₂ (by omega)) fun body s₃ hbody => ?_
    have h₃ := (blockUpTo_takes _ s₂).length_lt _ _ hbody
    exact run_bind_congr (run_otherwiseUpTo_succ fuel s₃ (by omega)) fun _ _ _ => rfl

theorem run_otherwiseUpTo_succ : ∀ (fuel : Nat) (s : State), 3 * s.rest.length + 1 ≤ fuel →
    (otherwiseUpTo mode (fuel + 1)).run s = (otherwiseUpTo mode fuel).run s
  | 0, _, h => absurd h (Nat.not_succ_le_zero _)
  | fuel + 1, s, h => by
    refine run_bind_congr rfl fun elseIf s' hcheck => ?_
    rw [run_check] at hcheck
    cases hcheck
    split
    next hkind =>
      refine run_bind_congr rfl fun _ s₁ hstart => ?_
      have h₁ := (Takes.advance (of_decide_eq_true hkind) (by decide)).length_lt _ _ hstart
      refine run_bind_congr rfl fun c s₂ hc => ?_
      have h₂ := (condition_takes s₁).length_lt _ _ hc
      refine run_bind_congr (run_blockUpTo_succ fuel s₂ (by omega)) fun body s₃ hbody => ?_
      have h₃ := (blockUpTo_takes _ s₂).length_lt _ _ hbody
      exact run_bind_congr (run_otherwiseUpTo_succ fuel s₃ (by omega)) fun _ _ _ => rfl
    next =>
      refine run_bind_congr rfl fun elseStart s' hcheck => ?_
      rw [run_check] at hcheck
      cases hcheck
      split
      next hkind =>
        refine run_bind_congr rfl fun _ s₁ hstart => ?_
        have h₁ := (Takes.advance (of_decide_eq_true hkind) (by decide)).length_lt _ _ hstart
        exact run_bind_congr (run_blockUpTo_succ fuel s₁ (by omega)) fun _ _ _ => rfl
      next => rfl

theorem run_loopUpTo_succ : ∀ (fuel : Nat) (s : State), 0 < s.rest.length →
    3 * s.rest.length ≤ fuel → (loopUpTo mode (fuel + 1)).run s = (loopUpTo mode fuel).run s
  | 0, _, hpos, h => by omega
  | fuel + 1, s, _, h => by
    refine run_bind_congr rfl fun _ s₁ hstart => ?_
    have h₁ := (Takes.expect (by decide)).length_lt _ _ hstart
    refine run_bind_congr rfl fun c s₂ hc => ?_
    have h₂ := (condition_takes s₁).length_lt _ _ hc
    refine run_bind_congr rfl fun _ s₃ hmarker => ?_
    have h₃ := (Local.optional (by decide)).length_le hmarker
    exact run_bind_congr (run_blockUpTo_succ fuel s₃ (by omega)) fun _ _ _ => rfl

theorem run_blockUpTo_succ : ∀ (fuel : Nat) (s : State), 3 * s.rest.length + 2 ≤ fuel →
    (blockUpTo mode (fuel + 1)).run s = (blockUpTo mode fuel).run s
  | 0, _, h => absurd h (Nat.not_succ_le_zero _)
  | fuel + 1, s, h => by
    refine run_bind_congr rfl fun opening s' hcheck => ?_
    rw [run_check] at hcheck
    cases hcheck
    split
    next hkind =>
      refine run_bind_congr rfl fun _ s₁ hopen => ?_
      have h₁ := (Takes.advance (of_decide_eq_true hkind) (by decide)).length_lt _ _ hopen
      exact run_bracedUpTo_succ fuel s₁ (by omega)
    next => exact run_bind_congr (run_statementUpTo_succ fuel s (by omega)) fun _ _ _ => rfl

theorem run_bracedUpTo_succ : ∀ (fuel : Nat) (s : State), 3 * s.rest.length + 2 ≤ fuel →
    (bracedUpTo mode (fuel + 1)).run s = (bracedUpTo mode fuel).run s
  | 0, _, h => absurd h (Nat.not_succ_le_zero _)
  | fuel + 1, s, h => by
    refine run_bind_congr rfl fun closing s' hcheck => ?_
    rw [run_check] at hcheck
    cases hcheck
    split
    next => rfl
    next =>
      refine run_bind_congr rfl fun ended s' hcheck => ?_
      rw [run_atEnd] at hcheck
      cases hcheck
      split
      next => rfl
      next =>
        refine run_bind_congr (run_statementUpTo_succ fuel s (by omega)) fun first s₁ hfirst => ?_
        -- the fuel of the rest is one less, which the first statement has made room for
        have h₁ := (statementUpTo_takes _ s).length_lt _ _ hfirst
        exact run_bind_congr (run_bracedUpTo_succ fuel s₁ (by omega)) fun _ _ _ => rfl

end

/-- With enough fuel a function runs alike, however much there is. -/
theorem run_eq_of_enough {p : Nat → Parser α} {bound : Nat}
    (hsucc : ∀ fuel, bound ≤ fuel → (p (fuel + 1)).run s = (p fuel).run s) {m n : Nat}
    (hm : bound ≤ m) (hn : bound ≤ n) : (p m).run s = (p n).run s := by
  have henough {fuel : Nat} (h : bound ≤ fuel) : (p fuel).run s = (p bound).run s := by
    induction h with
    | refl => rfl
    | step h ih => rw [hsucc _ h, ih]
  rw [henough hm, henough hn]

/-! ## Programs -/

/-- A parser that takes its fuel from the state is local, when it is for any fuel and enough fuel is
as good as more. -/
theorem Local.of_fuel {p : Nat → Parser α} (bound : State → Nat)
    (hlocal : ∀ fuel, Local (p fuel) s)
    (hsucc : ∀ fuel s, bound s ≤ fuel → (p (fuel + 1)).run s = (p fuel).run s) :
    Local (do p (bound (← get))) s := by
  have henough (τ : State) {fuel : Nat} (h : bound τ ≤ fuel) :
      (p fuel).run τ = (p (bound τ)).run τ :=
    run_eq_of_enough (fun fuel => hsucc fuel τ) h (Nat.le_refl _)
  obtain ⟨text, hrest, hposition, -⟩ := hlocal (bound s)
  refine ⟨text, hrest, hposition, ?_⟩
  intro rest hnext
  -- both runs are compared with the fuel of the one that has more
  obtain ⟨text', hrest', -, hbehind⟩ := hlocal (max (bound s) (bound { s with rest := text ++ rest }))
  rw [henough s (Nat.le_max_left _ _)] at hrest' hbehind
  obtain rfl : text' = text := List.append_cancel_right (hrest'.symm.trans hrest)
  have hrun := hbehind rest hnext
  rw [henough _ (Nat.le_max_right _ _)] at hrun
  exact hrun

theorem run_statement (mode : Strictness) (s : State) :
    (statement mode).run s = (statementUpTo mode s.fuel).run s := rfl

theorem statement_takes (mode : Strictness) (s : State) : Takes (statement mode) s where
  isLocal := .of_fuel State.fuel (fun fuel => (statementUpTo_takes fuel s).isLocal) fun fuel τ h =>
    run_statementUpTo_succ fuel τ (by unfold State.fuel at h; omega)
  length_lt a s' hrun := by
    rw [run_statement] at hrun
    exact (statementUpTo_takes s.fuel s).length_lt a s' hrun

theorem statementsUpTo_local : ∀ (fuel : Nat) (s : State), Local (statementsUpTo mode fuel) s
  | 0, _ => .pure _
  | fuel + 1, s => by
    apply Local.atEnd
    split
    next => exact .pure _
    next =>
      refine (statement_takes mode s).isLocal.bind fun first s₁ _ => ?_
      exact (statementsUpTo_local fuel s₁).andReturn _

theorem run_statementsUpTo_succ : ∀ (fuel : Nat) (s : State), s.rest.length + 1 ≤ fuel →
    (statementsUpTo mode (fuel + 1)).run s = (statementsUpTo mode fuel).run s
  | 0, _, h => absurd h (Nat.not_succ_le_zero _)
  | fuel + 1, s, h => by
    refine run_bind_congr rfl fun ended s' hcheck => ?_
    rw [run_atEnd] at hcheck
    cases hcheck
    split
    next => rfl
    next =>
      refine run_bind_congr rfl fun first s₁ hfirst => ?_
      have h₁ := (statement_takes mode s).length_lt _ _ hfirst
      exact run_bind_congr (run_statementsUpTo_succ fuel s₁ (by omega)) fun _ _ _ => rfl

theorem program_local (mode : Strictness) (s : State) : Local (program mode) s := by
  have hstatements : Local (do statementsUpTo mode ((← get).rest.length + 1)) s :=
    .of_fuel (fun s => s.rest.length + 1) (fun fuel => statementsUpTo_local fuel s)
      run_statementsUpTo_succ
  exact hstatements.andReturn Program.statements

/-- Where the parser stops it has taken as many tokens as its position says. -/
theorem drop_of_lastState (mode : Strictness) (tokens : List Token) {s : State}
    (h : lastState ((program mode).run (.start tokens)) = s) :
    tokens.drop s.position = s.rest := by
  obtain ⟨text, hrest, hposition, -⟩ := program_local mode (.start tokens)
  rw [h] at hrest hposition
  have hk : s.position = text.length := hposition.trans (Nat.zero_add _)
  have htokens : tokens = text ++ s.rest := hrest
  rw [hk, htokens, List.drop_left]

end Boli.Parser

import Boli.Proofs.Parsing.Locality

/-!
# Calls make progress, and loops end

A call of the parser that has a result has taken a token, and it has looked no further than at the one
behind those that it took. So other tokens behind that one give the same result at the same position
(`Takes.progresses`).

A loop of the parser takes a token in each round that it goes through, and it begins no more rounds than
there are tokens (`Unrolls.exists_loops`). How many that are is not said beforehand, as it is by the fuel of the
functions on nested statements: `Loops` is the loop itself, which asks before each round whether to go
on. The functions run their loops to the end (`Loops.run_statementsUpTo` and its companions), since
enough fuel is as good as more.
-/

set_option autoImplicit false

namespace Boli.Parser

open Grammar (next)

variable {α β γ : Type} {s : State} {mode : Strictness}

/-! ## Calls -/

/-- Wherever it begins, a call that has a result ends behind its first token and not behind the last
token there is. It has the same result, at the same position, with any tokens that are the same up to
that position and go on with the same token, or with the end, there. -/
def Progresses (p : Parser α) : Prop :=
  ∀ (tokens : List Token) (k : Nat) (skipped : List (Nat × Token)) (a : α) (s : State),
    p.run ⟨tokens.drop k, k, skipped⟩ = .ok a s →
      k < s.position ∧ s.position ≤ tokens.length ∧ s.rest = tokens.drop s.position ∧
      ∀ tokens' : List Token, tokens'.take s.position = tokens.take s.position →
        next (tokens'.drop s.position) = next (tokens.drop s.position) →
        p.run ⟨tokens'.drop k, k, skipped⟩ = .ok a { s with rest := tokens'.drop s.position }

/-- Tokens that begin as others do go on behind an index with the same text. -/
theorem drop_eq_append_of_take {tokens tokens' text : List Token} {k : Nat}
    (htext : (tokens.drop k).take text.length = text) (hk : k ≤ tokens.length)
    (h : tokens'.take (k + text.length) = tokens.take (k + text.length)) :
    tokens'.drop k = text ++ tokens'.drop (k + text.length) := by
  calc tokens'.drop k
    _ = (tokens'.take (k + text.length) ++ tokens'.drop (k + text.length)).drop k := by
      rw [List.take_append_drop]
    _ = (tokens.take k ++ (text ++ tokens'.drop (k + text.length))).drop k := by
      rw [h, List.take_add, htext, List.append_assoc]
    _ = text ++ tokens'.drop (k + text.length) :=
      List.drop_left' (by rw [List.length_take, Nat.min_eq_left hk])

theorem Takes.progresses {p : Parser α} (h : ∀ s, Takes p s) : Progresses p := by
  intro tokens k skipped a s hrun
  obtain ⟨text, hrest, hposition, hbehind⟩ := (h ⟨tokens.drop k, k, skipped⟩).isLocal
  have hlt := (h ⟨tokens.drop k, k, skipped⟩).length_lt a s hrun
  rw [hrun] at hrest hposition hbehind
  replace hrest : tokens.drop k = text ++ s.rest := hrest
  replace hposition : s.position = k + text.length := hposition
  have hlength : tokens.length - k = text.length + s.rest.length := by
    rw [← List.length_drop, hrest, List.length_append]
  replace hlt : s.rest.length < tokens.length - k := by rwa [← List.length_drop]
  have htext : (tokens.drop k).take text.length = text := by rw [hrest, List.take_left]
  have hdrop : tokens.drop s.position = s.rest := by
    rw [hposition, ← List.drop_drop, hrest, List.drop_left]
  refine ⟨by omega, by omega, hdrop.symm, ?_⟩
  intro tokens' hsame hnext
  rw [hdrop] at hnext
  have hrun' := hbehind (tokens'.drop s.position) hnext
  rw [hposition] at hsame
  rw [drop_eq_append_of_take htext (by omega) hsame, ← hposition]
  exact hrun'

/-! ## Enough fuel -/

theorem run_statementUpTo {fuel : Nat} (h : 3 * s.rest.length + 1 ≤ fuel) :
    (statementUpTo mode fuel).run s = (statement mode).run s :=
  run_eq_of_enough (fun fuel => run_statementUpTo_succ fuel s) h
    (show 3 * s.rest.length + 1 ≤ s.fuel by unfold State.fuel; omega)

theorem run_blockUpTo {fuel : Nat} (h : 3 * s.rest.length + 2 ≤ fuel) :
    (blockUpTo mode fuel).run s = (block mode).run s :=
  run_eq_of_enough (fun fuel => run_blockUpTo_succ fuel s) h
    (show 3 * s.rest.length + 2 ≤ s.fuel by unfold State.fuel; omega)

/-- What follows the body of a branch. -/
def otherwise (mode : Strictness) : Parser Otherwise := do otherwiseUpTo mode (← get).fuel

theorem run_otherwiseUpTo {fuel : Nat} (h : 3 * s.rest.length + 1 ≤ fuel) :
    (otherwiseUpTo mode fuel).run s = (otherwise mode).run s :=
  run_eq_of_enough (fun fuel => run_otherwiseUpTo_succ fuel s) h
    (show 3 * s.rest.length + 1 ≤ s.fuel by unfold State.fuel; omega)

theorem block_takes (mode : Strictness) (s : State) : Takes (block mode) s where
  isLocal := .of_fuel State.fuel (fun fuel => (blockUpTo_takes fuel s).isLocal) fun fuel τ h =>
    run_blockUpTo_succ fuel τ (by unfold State.fuel at h; omega)
  length_lt := (blockUpTo_takes s.fuel s).length_lt

/-! ## Loops -/

/-- A parser goes on behind a result, and a failure stays one. -/
def goOn (r : EStateM.Result Failure State α) (f : α → Parser β) : EStateM.Result Failure State β :=
  match r with
  | .ok a s => (f a).run s
  | .error failure s => .error failure s

theorem run_bind (p : Parser α) (f : α → Parser β) (s : State) :
    (p >>= f).run s = goOn (p.run s) f := by
  rw [EStateM.run_bind]
  cases p.run s with
  | ok a s' => rfl
  | error failure s' => rfl

theorem goOn_goOn (r : EStateM.Result Failure State α) (f : α → Parser β) (g : β → Parser γ) :
    goOn (goOn r f) g = goOn r fun a => f a >>= g := by
  cases r with
  | ok a s => exact (run_bind (f a) g s).symm
  | error failure s => rfl

theorem run_bind_assoc (p : Parser α) (f : α → Parser β) (g : β → Parser γ) (s : State) :
    ((p >>= f) >>= g).run s = (p >>= fun a => f a >>= g).run s := by
  rw [run_bind, run_bind, goOn_goOn, run_bind]

theorem goOn_pure (r : EStateM.Result Failure State α) : goOn r pure = r := by
  cases r <;> rfl

theorem goOn_congr (r : EStateM.Result Failure State α) {f g : α → Parser β}
    (h : ∀ a s, (f a).run s = (g a).run s) : goOn r f = goOn r g := by
  cases r with
  | ok a s => exact h a s
  | error failure s => rfl

/-- A loop that looks at the next token before each round, and goes on or stops. `Loops more round n s r`
says that from `s` on it begins `n` rounds and ends with `r`, the values of all rounds or the failure of
the last one. -/
inductive Loops (more : Token → Prop) (round : Parser α) :
    Nat → State → EStateM.Result Failure State (List α) → Prop where
  | stop {s : State} : ¬more (next s.rest) → Loops more round 0 s (.ok [] s)
  | fails {s s' : State} {failure : Failure} : more (next s.rest) →
      round.run s = .error failure s' → Loops more round 1 s (.error failure s')
  | again {s s' : State} {a : α} {n : Nat} {r : EStateM.Result Failure State (List α)} :
      more (next s.rest) → round.run s = .ok a s' → Loops more round n s' r →
      Loops more round (n + 1) s (goOn r fun as => pure (a :: as))

/-- From `s` on `p` runs a loop that begins at `start`. The loop comes to an end, it begins no more rounds
than there are tokens left at `s`, and `finish` is done with the values of its rounds. -/
def RunsLoop (p : Parser β) (s start : State) (more : Token → Prop) (round : Parser α)
    (finish : List α → Parser β) : Prop :=
  ∃ n ≤ s.rest.length, ∃ r, Loops more round n start r ∧ p.run s = goOn r finish

/-- A function on fuel is a loop written out. Given fuel for the tokens that are left it does a round and
goes on with less, or it does what comes behind the loop. -/
structure Unrolls (more : Token → Prop) (round : Parser α) (add : α → β → β) (done : Parser β)
    (loop : Nat → Parser β) : Prop where
  takes : ∀ s : State, more (next s.rest) → Takes round s
  stop : ∀ (fuel : Nat) (s : State), 3 * s.rest.length + 1 ≤ fuel → ¬more (next s.rest) →
    (loop (fuel + 1)).run s = done.run s
  again : ∀ (fuel : Nat) (s : State), 3 * s.rest.length + 1 ≤ fuel → more (next s.rest) →
    (loop (fuel + 1)).run s = (do return add (← round) (← loop fuel)).run s

namespace Unrolls

variable {more : Token → Prop} {round : Parser α} {add : α → β → β} {done : Parser β}
  {loop : Nat → Parser β}

/-- The loop comes to an end, since its rounds take tokens. It begins no more rounds than there are
tokens, but for one behind the last token if it goes on there. -/
theorem exists_loops (hloop : Unrolls more round add done loop) (extra : Nat)
    (hleft : ∀ s : State, more (next s.rest) → 0 < s.rest.length + extra) (s : State) :
    ∃ n ≤ s.rest.length + extra, ∃ r, Loops more round n s r := by
  induction hn : s.rest.length using Nat.strongRecOn generalizing s with
  | _ n ih =>
    subst hn
    by_cases hmore : more (next s.rest)
    · cases hrun : round.run s with
      | error failure s' => exact ⟨1, hleft s hmore, _, .fails hmore hrun⟩
      | ok a s' =>
        have hlt := (hloop.takes s hmore).length_lt a s' hrun
        obtain ⟨n, hn, r, hr⟩ := ih _ hlt s' rfl
        exact ⟨n + 1, by omega, _, .again hmore hrun hr⟩
    · exact ⟨0, Nat.zero_le _, _, .stop hmore⟩

/-- The fuel lasts until the loop ends by itself. -/
theorem run_eq (hloop : Unrolls more round add done loop) {n : Nat}
    {r : EStateM.Result Failure State (List α)} (h : Loops more round n s r) :
    ∀ fuel, 3 * s.rest.length + 2 ≤ fuel →
      (loop fuel).run s = goOn r fun as => do return as.foldr add (← done) := by
  induction h with
  | stop hstop =>
    rintro (_ | fuel) hfuel
    · omega
    · rw [hloop.stop fuel _ (by omega) hstop]
      exact (goOn_pure _).symm.trans (run_bind done pure _).symm
  | fails hmore hrun =>
    rintro (_ | fuel) hfuel
    · omega
    · rw [hloop.again fuel _ (by omega) hmore, run_bind, hrun]
      rfl
  | @again s s' a n r hmore hrun _ ih =>
    rintro (_ | fuel) hfuel
    · omega
    · have hlt := (hloop.takes _ hmore).length_lt _ _ hrun
      rw [hloop.again fuel _ (by omega) hmore, run_bind, hrun, goOn_goOn]
      show ((loop fuel) >>= fun b => pure (add a b)).run s' = _
      rw [run_bind, ih fuel (by omega), goOn_goOn]
      refine goOn_congr r fun as s => ?_
      show ((done >>= fun b => pure (as.foldr add b)) >>= fun b => pure (add a b)).run s =
        (done >>= fun b => pure (add a (as.foldr add b))).run s
      rw [run_bind, run_bind, goOn_goOn, run_bind]
      rfl

end Unrolls

/-! ### The statements of a program -/

theorem unrolls_statementsUpTo (mode : Strictness) :
    Unrolls (fun t => t.kind ≠ .eof) (statement mode) (fun found ss => found.toList ++ ss) (pure [])
      (statementsUpTo mode) where
  takes s _ := statement_takes mode s
  stop fuel s _ hstop := by
    rw [statementsUpTo, run_bind, run_atEnd, decide_eq_true (Decidable.not_not.mp hstop)]
    rfl
  again fuel s _ hmore := by
    rw [statementsUpTo, run_bind, run_atEnd, decide_eq_false hmore]
    rfl

theorem foldr_toList (found : List (Option Statement)) :
    found.foldr (fun st ss => st.toList ++ ss) [] = found.flatMap Option.toList := by
  rw [List.foldr_append_eq_append, List.append_nil, List.flatMap_def]

theorem program_runsLoop (mode : Strictness) (s : State) :
    RunsLoop (program mode) s s (fun t => t.kind ≠ .eof) (statement mode)
      fun found => return .statements (found.flatMap Option.toList) := by
  have hloop := unrolls_statementsUpTo mode
  obtain ⟨n, hn, r, hr⟩ := hloop.exists_loops 0 (fun s h => length_pos_of_kind h) s
  refine ⟨n, hn, r, hr, ?_⟩
  have hfuel : (statementsUpTo mode (s.rest.length + 1)).run s =
      (statementsUpTo mode (3 * s.rest.length + 2)).run s :=
    run_eq_of_enough (fun fuel => run_statementsUpTo_succ fuel s) (Nat.le_refl _) (by omega)
  show ((statementsUpTo mode (s.rest.length + 1)) >>= fun ss => pure (Program.statements ss)).run s = _
  rw [run_bind, hfuel, hloop.run_eq hr _ (Nat.le_refl _), goOn_goOn]
  refine goOn_congr r fun found s => ?_
  show (pure (Program.statements (found.foldr _ [])) : Parser Program).run s = _
  rw [foldr_toList]

/-! ### The statements between braces -/

/-- A round of the loop between braces. -/
def insideBraces (mode : Strictness) : Parser (Option Statement) := do
  if ← atEnd then fail (.kind .closeBrace) else statement mode

theorem insideBraces_takes (mode : Strictness) (s : State) : Takes (insideBraces mode) s := by
  apply Takes.atEnd
  split
  · exact .fail _
  · exact statement_takes mode s

theorem unrolls_bracedUpTo (mode : Strictness) :
    Unrolls (fun t => t.kind ≠ .closeBrace) (insideBraces mode) (fun found ss => found.toList ++ ss)
      (do let _ ← advance; return []) (bracedUpTo mode) where
  takes s _ := insideBraces_takes mode s
  stop fuel s _ hstop := by
    rw [bracedUpTo, run_bind, run_check, decide_eq_true (Decidable.not_not.mp hstop)]
    rfl
  again fuel s hfuel hmore := by
    rw [bracedUpTo, run_bind, run_check, decide_eq_false hmore]
    show (do
      if ← atEnd then fail (.kind .closeBrace)
      else return (← statementUpTo mode fuel).toList ++ (← bracedUpTo mode fuel) : Parser _).run s = _
    rw [run_bind, run_bind, insideBraces, run_bind, run_atEnd]
    cases decide ((next s.rest).kind = .eof) with
    | true => rfl
    | false =>
      show ((statementUpTo mode fuel) >>= _).run s = goOn ((statement mode).run s) _
      rw [run_bind, run_statementUpTo hfuel]

/-- Behind its brace a block runs a loop. -/
theorem block_runsLoop (mode : Strictness) (s : State) (h : (next s.rest).kind = .openBrace) :
    RunsLoop (block mode) s { s with rest := s.rest.tail, position := s.position + 1 }
      (fun t => t.kind ≠ .closeBrace) (insideBraces mode)
      fun found => do let _ ← advance; return found.flatMap Option.toList := by
  have hloop := unrolls_bracedUpTo mode
  have hpos : 0 < s.rest.length := length_pos_of_kind (by rw [h]; decide)
  -- at the end of the tokens the loop begins a round, which fails
  obtain ⟨n, hn, r, hr⟩ := hloop.exists_loops 1 (fun _ _ => Nat.succ_pos _)
    { s with rest := s.rest.tail, position := s.position + 1 }
  rw [List.length_tail, Nat.sub_add_cancel hpos] at hn
  refine ⟨n, hn, r, hr, ?_⟩
  have hblock : (block mode).run s = (bracedUpTo mode (3 * s.rest.length + 2)).run
      { s with rest := s.rest.tail, position := s.position + 1 } := by
    show (blockUpTo mode (3 * s.rest.length + 3)).run s = _
    rw [blockUpTo, run_bind, run_check, decide_eq_true h]
    rfl
  rw [hblock, hloop.run_eq hr _ (by rw [List.length_tail]; omega)]
  refine goOn_congr r fun found s => ?_
  show (pure (found.foldr _ []) : Parser (List Statement)).run _ = _
  rw [foldr_toList]
  rfl

/-! ### The clauses of a branch -/

/-- A round of the loop over the clauses of a branch. -/
def clause (mode : Strictness) : Parser (Condition × List Statement) := do
  let _ ← advance
  let c ← condition
  let body ← block mode
  return (c, body)

/-- What stands behind the clauses of a branch. -/
def lastBlock (mode : Strictness) : Parser Otherwise := do
  if ← check (.keyword .elseStart) then
    let _ ← advance
    return .last (← block mode)
  else return .nothing

theorem clause_takes (mode : Strictness) (h : (next s.rest).kind = .keyword .elseIf) :
    Takes (clause mode) s := by
  refine (Takes.advance h (by decide)).bind fun _ s₁ _ => ?_
  refine (condition_takes s₁).isLocal.bind fun c s₂ _ => ?_
  exact (block_takes mode s₂).isLocal.andReturn _

theorem unrolls_otherwiseUpTo (mode : Strictness) :
    Unrolls (fun t => t.kind = .keyword .elseIf) (clause mode)
      (fun c rest => .elseIf c.1 c.2 rest) (lastBlock mode) (otherwiseUpTo mode) where
  takes s h := clause_takes mode h
  stop fuel s hfuel hstop := by
    rw [otherwiseUpTo, run_bind, run_check, decide_eq_false hstop]
    refine run_bind_congr rfl fun elseStart s' hcheck => ?_
    rw [run_check] at hcheck
    cases hcheck
    split
    next hkind =>
      refine run_bind_congr rfl fun _ s₁ hstart => ?_
      have h₁ := (Takes.advance (of_decide_eq_true hkind) (by decide)).length_lt _ _ hstart
      exact run_bind_congr (run_blockUpTo (by omega)) fun _ _ _ => rfl
    next => rfl
  again fuel s hfuel hmore := by
    rw [otherwiseUpTo, run_bind, run_check, decide_eq_true hmore, clause, run_bind_assoc]
    refine run_bind_congr rfl fun _ s₁ hstart => ?_
    have h₁ := (Takes.advance hmore (by decide)).length_lt _ _ hstart
    rw [run_bind_assoc]
    refine run_bind_congr rfl fun c s₂ hc => ?_
    have h₂ := (condition_takes s₁).length_lt _ _ hc
    rw [run_bind_assoc]
    exact run_bind_congr (run_blockUpTo (by omega)) fun _ _ _ => rfl

/-- Behind its first body a branch runs a loop. -/
theorem otherwise_runsLoop (mode : Strictness) (s : State) :
    RunsLoop (otherwise mode) s s (fun t => t.kind = .keyword .elseIf) (clause mode)
      fun clauses => return clauses.foldr (fun c rest => .elseIf c.1 c.2 rest) (← lastBlock mode) := by
  have hloop := unrolls_otherwiseUpTo mode
  obtain ⟨n, hn, r, hr⟩ :=
    hloop.exists_loops 0 (fun s h => length_pos_of_kind (by rw [h]; decide)) s
  exact ⟨n, hn, r, hr, hloop.run_eq hr s.fuel (by unfold State.fuel; omega)⟩

theorem run_branch (mode : Strictness) (s : State) :
    (branch mode).run s = (do
      let _ ← expect (.keyword .ifStart)
      let c ← condition
      let body ← block mode
      let rest ← otherwise mode
      return .branch c body rest : Parser Statement).run s := by
  show (branchUpTo mode (3 * s.rest.length + 3)).run s = _
  refine run_bind_congr rfl fun _ s₁ hstart => ?_
  have h₁ := (Takes.expect (by decide)).length_lt _ _ hstart
  refine run_bind_congr rfl fun c s₂ hc => ?_
  have h₂ := (condition_takes s₁).length_lt _ _ hc
  refine run_bind_congr (run_blockUpTo (by omega)) fun body s₃ hbody => ?_
  have h₃ := (blockUpTo_takes _ s₂).length_lt _ _ hbody
  exact run_bind_congr (run_otherwiseUpTo (by omega)) fun _ _ _ => rfl

/-! ## Progress -/

/-- Calls of the parser take a token and look at no more than one behind those that they take, in both
modes and from any position on. So its three loops come to an end: the one over the statements of a
program, the one between the braces of a block and the one over the clauses of a branch. None of them
begins more rounds than there are tokens, whether it ends with a result or with a failure. -/
theorem calls_progress (mode : Strictness) :
    (Progresses primary ∧ Progresses expression ∧ Progresses condition ∧
      Progresses (statement mode) ∧ Progresses (block mode)) ∧
    (∀ s : State, RunsLoop (program mode) s s (fun t => t.kind ≠ .eof) (statement mode)
      fun found => return .statements (found.flatMap Option.toList)) ∧
    (∀ s : State, (next s.rest).kind = .openBrace →
      RunsLoop (block mode) s { s with rest := s.rest.tail, position := s.position + 1 }
        (fun t => t.kind ≠ .closeBrace) (insideBraces mode)
        fun found => do let _ ← advance; return found.flatMap Option.toList) ∧
    ∀ s : State,
      (branch mode).run s = (do
        let _ ← expect (.keyword .ifStart)
        let c ← condition
        let body ← block mode
        let rest ← otherwise mode
        return .branch c body rest : Parser Statement).run s ∧
      RunsLoop (otherwise mode) s s (fun t => t.kind = .keyword .elseIf) (clause mode)
        fun clauses =>
          return clauses.foldr (fun c rest => .elseIf c.1 c.2 rest) (← lastBlock mode) := by
  refine ⟨⟨?_, ?_, ?_, ?_, ?_⟩, program_runsLoop mode, block_runsLoop mode, fun s => ⟨?_, ?_⟩⟩
  · exact Takes.progresses primary_takes
  · exact Takes.progresses expression_takes
  · exact Takes.progresses condition_takes
  · exact Takes.progresses (statement_takes mode)
  · exact Takes.progresses (block_takes mode)
  · exact run_branch mode s
  · exact otherwise_runsLoop mode s

/-- A branch whose first body begins with a stray mark, with one more clause and a last body. A print
statement stands behind it. -/
def strayMark : List Token :=
  [{ kind := .keyword .ifStart, value := "agar" }, { kind := .identifier, value := "x" },
    { kind := .operator, value := "<" }, { kind := .number, value := "2" },
    { kind := .openBrace, value := "\x7b" }, { kind := .semicolon, value := ";" },
    { kind := .identifier, value := "x" }, { kind := .closeBrace, value := "\x7d" },
    { kind := .keyword .elseIf, value := "yafir" }, { kind := .identifier, value := "x" },
    { kind := .operator, value := "==" }, { kind := .number, value := "3" },
    { kind := .identifier, value := "y" }, { kind := .keyword .elseStart, value := "varna" },
    { kind := .identifier, value := "z" }, { kind := .keyword .print, value := "bol" },
    { kind := .identifier, value := "x" }]

/-- The branch ends at the print statement, whatever stands behind the word that begins it, and the loop
between its braces begins no more rounds than there are tokens from the brace on. -/
theorem calls_progress_strayMark :
    let st : Statement := .branch (.compare (.identifier "x") "<" (.number 2))
      [.evaluate (.identifier "x")]
      (.elseIf (.compare (.identifier "x") "==" (.number 3)) [.evaluate (.identifier "y")]
        (.last [.evaluate (.identifier "z")]))
    let skipped : List (Nat × Token) := [(5, { kind := .semicolon, value := ";" })]
    (statement .permissive).run (.start strayMark) = .ok (some st) ⟨strayMark.drop 15, 15, skipped⟩ ∧
    15 ≤ strayMark.length ∧
    (∀ behind : List Token, (statement .permissive).run (.start (strayMark.take 16 ++ behind)) =
      .ok (some st) ⟨{ kind := .keyword .print, value := "bol" } :: behind, 15, skipped⟩) ∧
    (next (strayMark.drop 4)).kind = .openBrace ∧
    RunsLoop (block .permissive) ⟨strayMark.drop 4, 4, []⟩ ⟨strayMark.drop 5, 5, []⟩
      (fun t => t.kind ≠ .closeBrace) (insideBraces .permissive)
      fun found => do let _ ← advance; return found.flatMap Option.toList := by
  intro st skipped
  have hrun : (statement .permissive).run (.start strayMark) =
      .ok (some st) ⟨strayMark.drop 15, 15, skipped⟩ := by rfl
  have hbrace : (next (strayMark.drop 4)).kind = .openBrace := by rfl
  obtain ⟨⟨-, -, -, hstatement, -⟩, -, hblock, -⟩ := calls_progress .permissive
  obtain ⟨-, hle, -, hbehind⟩ := hstatement strayMark 0 [] _ _ hrun
  exact ⟨hrun, hle, fun behind => hbehind (strayMark.take 16 ++ behind) rfl rfl, hbrace,
    hblock ⟨strayMark.drop 4, 4, []⟩ hbrace⟩

end Boli.Parser

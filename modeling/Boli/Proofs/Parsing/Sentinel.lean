import Boli.Proofs.Parsing.Alike
import Boli.Proofs.Parsing.Skipping

/-!
# The mark at the end of the tokens

A sequence of tokens may end with a mark of its own, and what stands behind the mark is not read:
with a mark or without one, and whatever comes behind it, the parser has the same program or fails
for the same reason, and it stops at the same place, which a program leaves at the end
(`parse_sentinel`).

That what stands behind does not matter is a case of the locality of the parser, if the mark is the
one that the parser itself finds at the end (`parse_endOfInput`). Another mark may have a value and a
place of its own. `Token.bare` takes them away, and `OnBare` says of a run and of the run on bare
tokens that they end alike; the steps of the parser keep it.
-/

set_option autoImplicit false

namespace Boli

open Grammar (next)

namespace Token

variable {t : Token}

/-- A mark of the end without a value or a place of its own. Other tokens are left as they are. -/
def bare (t : Token) : Token := if t.kind = .eof then endOfInput else t

theorem bare_of_eof (h : t.kind = .eof) : t.bare = endOfInput := if_pos h

theorem bare_of_ne_eof (h : t.kind ≠ .eof) : t.bare = t := if_neg h

theorem kind_bare (t : Token) : t.bare.kind = t.kind := by
  by_cases h : t.kind = .eof
  · rw [bare_of_eof h, h]
    rfl
  · rw [bare_of_ne_eof h]

end Token

namespace Parser

variable {α β : Type} {s : State}

/-! ## Runs on bare tokens -/

/-- The state on bare tokens. -/
def State.bare (s : State) : State :=
  { s with rest := s.rest.map Token.bare, skipped := s.skipped.map fun e => (e.1, e.2.bare) }

/-- The failure at a bare token. -/
def Failure.bare : Failure → Failure
  | .unexpected expected found => .unexpected expected found.bare
  | .numeral fault => .numeral fault

/-- The end of a run on bare tokens. -/
def bareEnd : EStateM.Result Failure State α → EStateM.Result Failure State α
  | .ok a s => .ok a s.bare
  | .error failure s => .error failure.bare s.bare

theorem next_bare (s : State) : next s.bare.rest = (next s.rest).bare := by
  obtain ⟨_ | ⟨t, ts⟩, n, skipped⟩ := s
  · rfl
  · rfl

theorem position_lastState_bareEnd (r : EStateM.Result Failure State α) :
    (lastState (bareEnd r)).position = (lastState r).position := by
  cases r <;> rfl

/-- On bare tokens the second parser ends as the first one does. -/
def OnBare (p q : Parser α) (s : State) : Prop := q.run s.bare = bareEnd (p.run s)

namespace OnBare

variable {p q : Parser α} {f g : α → Parser β}

protected theorem pure (a : α) : OnBare (pure a) (pure a) s := rfl

protected theorem fail (expected : Expectation) :
    OnBare (fail expected : Parser α) (fail expected) s := by
  show EStateM.Result.error (Failure.unexpected expected (next s.bare.rest)) s.bare = _
  rw [next_bare]
  rfl

protected theorem bind (hp : OnBare p q s) (hf : ∀ a s', OnBare (f a) (g a) s') :
    OnBare (p >>= f) (q >>= g) s := by
  unfold OnBare at hp ⊢
  rw [EStateM.run_bind, EStateM.run_bind, hp]
  cases p.run s with
  | ok a s' => exact hf a s'
  | error failure s' => rfl

theorem andReturn {h : α → β} (hp : OnBare p q s) :
    OnBare (p >>= fun a => pure (h a)) (q >>= fun a => pure (h a)) s :=
  hp.bind fun a _ => .pure (h a)

/-- A test takes no token. -/
theorem test {a b : α} (hp : p.run s = .ok a s) (hq : q.run s.bare = .ok b s.bare)
    (hf : OnBare (f a) (g b) s) : OnBare (p >>= f) (q >>= g) s := by
  unfold OnBare
  rw [EStateM.run_bind, EStateM.run_bind, hp, hq]
  exact hf

protected theorem current {f g : Token → Parser β}
    (hf : OnBare (f (next s.rest)) (g (next s.rest).bare) s) :
    OnBare (current >>= f) (current >>= g) s :=
  test (run_current s) (run_current s.bare) (by rwa [next_bare])

protected theorem check {kind : Token.Kind} {f g : Bool → Parser β}
    (hf : ∀ b, (b = true → (next s.rest).kind = kind) → OnBare (f b) (g b) s) :
    OnBare (check kind >>= f) (check kind >>= g) s := by
  have hbare : (check kind).run s.bare = .ok (decide ((next s.rest).kind = kind)) s.bare := by
    rw [run_check, next_bare, Token.kind_bare]
  exact test (run_check kind s) hbare (hf _ of_decide_eq_true)

/-- No mark of the end is a sign. -/
theorem isSign_bare (t : Token) (value : String) :
    (decide (t.bare.kind = .operator) && decide (t.bare.value = value)) =
      (decide (t.kind = .operator) && decide (t.value = value)) := by
  by_cases h : t.kind = .eof
  · rw [Token.bare_of_eof h, h]
    rfl
  · rw [Token.bare_of_ne_eof h]

protected theorem checkSign {value : String} {f g : Bool → Parser β}
    (hf : ∀ b, OnBare (f b) (g b) s) :
    OnBare (checkValue .operator value >>= f) (checkValue .operator value >>= g) s := by
  have hbare : (checkValue .operator value).run s.bare =
      .ok (decide ((next s.rest).kind = .operator) && decide ((next s.rest).value = value))
        s.bare := by
    rw [run_checkValue, next_bare, isSign_bare]
  exact test (run_checkValue .operator value s) hbare (hf _)

/-- Whether the token that stands next is one of these signs, and which one. -/
protected theorem operator {operators : List String} (f : String → Parser β) {p : Parser β}
    (hf : ∀ sign, OnBare (f sign) (f sign) s) (hp : OnBare p p s) :
    OnBare
      (do let t ← current; if t.kind = .operator ∧ t.value ∈ operators then f t.value else p)
      (do let t ← current; if t.kind = .operator ∧ t.value ∈ operators then f t.value else p) s := by
  apply OnBare.current
  by_cases h : (next s.rest).kind = .eof
  · rw [Token.bare_of_eof h, if_neg (by rw [h]; exact nofun), if_neg nofun]
    exact hp
  · rw [Token.bare_of_ne_eof h]
    split
    · exact hf _
    · exact hp

theorem run_advance_bare (s : State) :
    advance.run s.bare =
      .ok (next s.rest).bare { s with rest := s.rest.tail, position := s.position + 1 }.bare := by
  rw [← next_bare]
  show EStateM.Result.ok _ _ = _
  rw [State.bare, State.bare, List.map_tail]
  rfl

protected theorem advance (h : (next s.rest).kind ≠ .eof) : OnBare advance advance s := by
  unfold OnBare
  rw [run_advance_bare, Token.bare_of_ne_eof h]
  rfl

/-- A token that is taken and not looked at may be a mark. -/
theorem bind_advance {p q : Parser β} (hp : ∀ s', OnBare p q s') :
    OnBare (advance >>= fun _ => p) (advance >>= fun _ => q) s := by
  unfold OnBare
  rw [EStateM.run_bind, EStateM.run_bind, run_advance_bare]
  exact hp _

/-- Where the test has come out, a token is taken or the parser fails. -/
theorem taken {b : Bool} {expected : Expectation} {f g : Token → Parser β}
    (hf : b = true → ∀ s', OnBare (f (next s.rest)) (g (next s.rest).bare) s') :
    OnBare ((if b then Parser.advance else Parser.fail expected) >>= f)
      ((if b then Parser.advance else Parser.fail expected) >>= g) s := by
  cases b with
  | true =>
    unfold OnBare
    rw [if_pos rfl, EStateM.run_bind, EStateM.run_bind, run_advance_bare]
    exact hf rfl _
  | false =>
    have hfail : OnBare (Parser.fail expected : Parser Token) (Parser.fail expected) s :=
      .fail expected
    unfold OnBare at hfail ⊢
    rw [if_neg nofun, EStateM.run_bind, EStateM.run_bind, hfail]
    rfl

protected theorem expect {kind : Token.Kind} {f g : Token → Parser β}
    (hf : (next s.rest).kind = kind →
      ∀ s', OnBare (f (next s.rest)) (g (next s.rest).bare) s') :
    OnBare (Parser.expect kind >>= f) (Parser.expect kind >>= g) s := by
  rw [Parser.expect, bind_assoc, bind_assoc]
  exact .check fun b hb => taken fun htrue => hf (hb htrue)

protected theorem expectSign {value : String} {p q : Parser β} (hp : ∀ s', OnBare p q s') :
    OnBare (expectValue .operator value >>= fun _ => p)
      (expectValue .operator value >>= fun _ => q) s := by
  rw [Parser.expectValue, bind_assoc, bind_assoc]
  exact .checkSign fun _ => taken fun _ => hp

protected theorem optional {kind : Token.Kind} {p q : Parser β} (hp : ∀ s', OnBare p q s') :
    OnBare (Parser.optional kind >>= fun _ => p) (Parser.optional kind >>= fun _ => q) s := by
  rw [Parser.optional, bind_assoc, bind_assoc]
  refine .check fun b _ => ?_
  cases b with
  | true => exact .bind_advance hp
  | false => exact hp s

protected theorem skip : OnBare skip skip s := by
  have hrun : skip.run s.bare = .ok () { s with
      rest := s.rest.tail, position := s.position + 1
      skipped := s.skipped ++ [(s.position, next s.rest)] }.bare := by
    show EStateM.Result.ok _ _ = _
    rw [State.bare, State.bare, List.map_tail, List.map_append, List.map_singleton, ← next_bare]
    rfl
  exact hrun

end OnBare

/-! ## Programs -/

theorem numberOf_onBare (t : Token) (s : State) : OnBare (numberOf t) (numberOf t) s := by
  unfold OnBare numberOf
  cases Text.Numeral.read t.value <;> rfl

theorem primary_onBare (s : State) : OnBare primary primary s := by
  apply OnBare.current
  rw [Token.kind_bare]
  split
  next h =>
    rw [Token.bare_of_ne_eof (by rw [h]; decide)]
    exact .bind_advance (numberOf_onBare _)
  next h =>
    rw [Token.bare_of_ne_eof (by rw [h]; decide)]
    exact .bind_advance fun _ => .pure _
  next h =>
    rw [Token.bare_of_ne_eof (by rw [h]; decide)]
    exact .bind_advance fun _ => .pure _
  · exact .fail _

theorem statementUpTo_onBare {mode : Strictness} {fuel : Nat} {s : State}
    (hdeclaration : OnBare declaration declaration s)
    (hprinting : OnBare printing printing s)
    (hbranch : OnBare (branchUpTo mode fuel) (branchUpTo mode fuel) s)
    (hloop : OnBare (loopUpTo mode fuel) (loopUpTo mode fuel) s)
    (hsimple : OnBare simple simple s) :
    OnBare (statementUpTo mode (fuel + 1)) (statementUpTo mode (fuel + 1)) s := by
  apply OnBare.current
  rw [Token.kind_bare]
  split
  · exact hdeclaration.andReturn
  · exact hprinting.andReturn
  · exact hbranch.andReturn
  · exact hloop.andReturn
  · exact hsimple.andReturn
  · exact .fail _
  · cases mode with
    | strict => exact .fail _
    | permissive => exact OnBare.skip.andReturn

theorem onBare_tandem (mode : Strictness) : Tandem mode mode OnBare where
  pure a _ := .pure a
  bind := .bind
  fail _ _ := .fail _
  check _ hf := .check fun b _ => hf b
  checkSign := .checkSign
  advance := .bind_advance
  expect _ hp := .expect fun _ => hp
  expectSign := .expectSign
  expectName f _ hf := .expect fun h s' => by
    rw [Token.bare_of_ne_eof (by rw [h]; decide)]
    exact hf _ s'
  optional _ := .optional
  primary := primary_onBare
  operator f _ _ := .operator f
  statement := statementUpTo_onBare
  length {β p q s} hp := by
    refine OnBare.test (run_get s) (run_get s.bare) ?_
    rw [show s.bare.rest.length = s.rest.length from List.length_map _]
    exact hp _

/-- A run on bare tokens is the run on the tokens themselves, as far as marks of the end are the
same. -/
theorem run_program_bare (mode : Strictness) (tokens : List Token) :
    (program mode).run (.start (tokens.map Token.bare)) =
      bareEnd ((program mode).run (.start tokens)) :=
  (onBare_tandem mode).program (.start tokens)

/-! ## Where a program ends -/

/-- With fuel for each token that is left, statements are read up to the end. -/
theorem next_of_statementsUpTo {mode : Strictness} : ∀ (fuel : Nat) (s : State),
    s.rest.length < fuel → ∀ ss s', (statementsUpTo mode fuel).run s = .ok ss s' →
      (next s'.rest).kind = .eof
  | 0, _, h => absurd h (Nat.not_lt_zero _)
  | fuel + 1, s, h => by
    intro ss s' hrun
    rw [statementsUpTo, EStateM.run_bind, run_atEnd] at hrun
    by_cases hend : (next s.rest).kind = .eof
    · simp only [hend, decide_true, if_true] at hrun
      cases hrun
      exact hend
    · simp only [hend, decide_false, Bool.false_eq_true, if_false] at hrun
      obtain ⟨first, s₁, hfirst, hrun⟩ := exists_of_run_bind hrun
      obtain ⟨more, s₂, hmore, hrun⟩ := exists_of_run_bind hrun
      cases hrun
      have hlt := (statement_takes mode s).length_lt _ _ hfirst
      exact next_of_statementsUpTo fuel s₁ (by omega) _ _ hmore

/-- The parser stops at a token that it has been given, or behind the last one. -/
theorem stop_le_length (mode : Strictness) (tokens : List Token) :
    stop mode tokens ≤ tokens.length := by
  obtain ⟨text, hrest, hposition, -⟩ := program_local mode (.start tokens)
  have htokens := congrArg List.length hrest
  rw [List.length_append] at htokens
  have hstop : stop mode tokens = text.length := hposition.trans (Nat.zero_add _)
  change tokens.length = _ at htokens
  omega

/-- A program leaves nothing but the end. -/
theorem tokenAtStop_of_parse {mode : Strictness} {tokens : List Token} {p : Program}
    (h : parse mode tokens = .ok p) : (tokenAtStop mode tokens).kind = .eof := by
  unfold parse at h
  split at h
  next p' s' hrun =>
    have hlast := next_lastState mode tokens
    rw [hrun] at hlast
    obtain ⟨s, s₁, hget, hrun⟩ := exists_of_run_bind hrun
    cases hget
    obtain ⟨ss, s₂, hss, hrun⟩ := exists_of_run_bind hrun
    cases hrun
    exact hlast ▸ next_of_statementsUpTo _ _ (Nat.lt_succ_self _) ss s' hss
  next => cases h

/-- Where there is no mark among the tokens, a program has all of them. -/
theorem stop_of_parse {mode : Strictness} {tokens : List Token}
    (hnone : ∀ t ∈ tokens, t.kind ≠ .eof) {p : Program} (h : parse mode tokens = .ok p) :
    stop mode tokens = tokens.length := by
  refine Nat.le_antisymm (stop_le_length mode tokens) (Nat.not_lt.1 fun hlt => ?_)
  have hend := tokenAtStop_of_parse h
  rw [tokenAtStop, List.getElem?_eq_getElem hlt] at hend
  exact hnone _ (List.getElem_mem hlt) hend

/-- The mark that the parser finds at the end may stand there, whatever comes behind it. -/
theorem run_program_endOfInput (mode : Strictness) (tokens rest : List Token) :
    ∃ left, (program mode).run (.start (tokens ++ Token.endOfInput :: rest)) =
      leaving left ((program mode).run (.start tokens)) := by
  obtain ⟨text, hrest, -, hbehind⟩ := program_local mode (.start tokens)
  generalize hlast : (lastState ((program mode).run (.start tokens))).rest = last at hrest hbehind
  have hnext : next (last ++ Token.endOfInput :: rest) = next last := by cases last <;> rfl
  refine ⟨last ++ Token.endOfInput :: rest, ?_⟩
  rw [← hbehind _ hnext, ← List.append_assoc, ← hrest]
  rfl

/-- The reason why tokens are no program, apart from what a mark of the end says. -/
inductive Failure.SameKinds : Failure → Failure → Prop where
  | unexpected (expected : Expectation) {t u : Token} : u.kind = t.kind →
      SameKinds (.unexpected expected t) (.unexpected expected u)
  | numeral (fault : Text.Numeral.Fault) : SameKinds (.numeral fault) (.numeral fault)

theorem Failure.sameKinds_of_bare {failure failure' : Failure} (h : failure'.bare = failure.bare) :
    failure.SameKinds failure' := by
  cases failure with
  | unexpected expected t =>
    cases failure' with
    | unexpected expected' u =>
      simp only [Failure.bare, Failure.unexpected.injEq] at h
      obtain ⟨rfl, hbare⟩ := h
      exact .unexpected _ (by rw [← Token.kind_bare u, hbare, Token.kind_bare])
    | numeral fault => cases h
  | numeral fault =>
    cases failure' with
    | unexpected expected u => cases h
    | numeral fault' =>
      cases h
      exact .numeral fault

end Parser

/-- A mark of the end may stand behind tokens that hold none, and anything behind the mark: the
parser has the same program, or it fails and expects the same where it finds a token of the same
kind. It stops at the same place, which is never behind the mark, and with a program it has read all
tokens before the mark. -/
theorem parse_sentinel (mode : Strictness) {tokens : List Token}
    (hnone : ∀ t ∈ tokens, t.kind ≠ .eof) {e : Token} (he : e.kind = .eof) (rest : List Token) :
    Results.SameOr Parser.Failure.SameKinds (parse mode tokens) (parse mode (tokens ++ e :: rest)) ∧
    Parser.stop mode (tokens ++ e :: rest) = Parser.stop mode tokens ∧
    Parser.stop mode tokens ≤ tokens.length ∧
    ∀ p, parse mode tokens = .ok p → Parser.stop mode tokens = tokens.length := by
  have hbare : (tokens ++ e :: rest).map Token.bare =
      (tokens ++ Token.endOfInput :: rest).map Token.bare := by
    rw [List.map_append, List.map_append, List.map_cons, List.map_cons, Token.bare_of_eof he]
    rfl
  obtain ⟨left, hrun⟩ := Parser.run_program_endOfInput mode tokens rest
  have hends : Parser.bareEnd ((Parser.program mode).run (.start (tokens ++ e :: rest))) =
      Parser.bareEnd (Parser.leaving left ((Parser.program mode).run (.start tokens))) := by
    rw [← Parser.run_program_bare, hbare, Parser.run_program_bare, hrun]
  have hstop : Parser.stop mode (tokens ++ e :: rest) = Parser.stop mode tokens := by
    have hposition := congrArg (fun r => (Parser.lastState r).position) hends
    simp only [Parser.position_lastState_bareEnd] at hposition
    refine hposition.trans ?_
    rw [Parser.stop]
    cases (Parser.program mode).run (.start tokens) <;> rfl
  refine ⟨?_, hstop, Parser.stop_le_length mode tokens, fun p => Parser.stop_of_parse hnone⟩
  unfold parse
  generalize (Parser.program mode).run (.start tokens) = r at hends ⊢
  generalize (Parser.program mode).run (.start (tokens ++ e :: rest)) = r' at hends ⊢
  cases r with
  | ok p s =>
    cases r' with
    | ok p' s' =>
      cases (EStateM.Result.ok.inj hends).1
      exact .ok p
    | error failure' s' => cases hends
  | error failure s =>
    cases r' with
    | ok p' s' => cases hends
    | error failure' s' =>
      exact .error (Parser.Failure.sameKinds_of_bare (EStateM.Result.error.inj hends).1)

/-- A name that is printed, in a braced body. -/
def printedInBody : List Token :=
  [{ kind := .keyword .whileStart, value := "jabtak" }, { kind := .identifier, value := "x" },
    { kind := .operator, value := "<" }, { kind := .number, value := "3" },
    { kind := .openBrace, value := "\x7b" }, { kind := .keyword .print, value := "bolo" },
    { kind := .identifier, value := "x" }, { kind := .closeBrace, value := "\x7d" }]

/-- A mark with a place, with another mark and a brace that is closed once more behind it. -/
theorem parse_sentinel_printedInBody :
    let e : Token := { kind := .eof, value := "", line := 3, column := 1 }
    let rest : List Token := [{ kind := .closeBrace, value := "\x7d" }, Token.endOfInput]
    (∀ t ∈ printedInBody, t.kind ≠ .eof) ∧ e.kind = .eof ∧
    Results.SameOr Parser.Failure.SameKinds (parse .permissive printedInBody)
      (parse .permissive (printedInBody ++ e :: rest)) ∧
    Parser.stop .permissive (printedInBody ++ e :: rest) = Parser.stop .permissive printedInBody ∧
    Parser.stop .permissive printedInBody ≤ printedInBody.length ∧
    ∀ p, parse .permissive printedInBody = .ok p →
      Parser.stop .permissive printedInBody = printedInBody.length := by
  intro e rest
  have hnone : ∀ t ∈ printedInBody, t.kind ≠ .eof := by decide
  exact ⟨hnone, rfl, parse_sentinel .permissive hnone rfl rest⟩

end Boli

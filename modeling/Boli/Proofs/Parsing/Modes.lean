import Boli.Proofs.Parsing.Pairs
import Boli.Proofs.Parsing.Prefixes

/-!
# The permissive parser extends the strict one

Both parsers make the same steps until the permissive one passes over a token. There the strict one
fails, and what the permissive one makes of the rest does not matter any more
(`parse_permissive_extends_strict`).

`Extends` says so of two runs that start in the same state. All functions of the parser have one
branch that asks for the mode between them, so that the steps of the parser keep the judgement
(`Parser.extends_congruence`).
-/

set_option autoImplicit false

namespace Boli.Parser

open Grammar (next)

variable {α β : Type} {s : State}

/-! ## Two runs from one state -/

/-- Two runs from one state: either they are the same and pass over nothing, or the second one passes
over some tokens, at the first of which the first one fails for want of a statement. -/
inductive Extends (p q : Parser α) (s : State) : Prop where
  | same : p.run s = q.run s → (lastState (q.run s)).skipped = s.skipped → Extends p q s
  | skips (k : Nat) (t : Token) (more : List (Nat × Token)) (rest : List Token) :
      (lastState (q.run s)).skipped = s.skipped ++ (k, t) :: more →
      p.run s = .error (.unexpected .statement t) ⟨t :: rest, k, s.skipped⟩ → Extends p q s

namespace Extends

variable {p q : Parser α} {f g : α → Parser β}

/-- Tokens that were passed over are never forgotten. -/
theorem exists_skipped (h : Extends p q s) :
    ∃ more, (lastState (q.run s)).skipped = s.skipped ++ more := by
  cases h with
  | same _ hskipped => exact ⟨[], by rw [hskipped, List.append_nil]⟩
  | skips k t more rest hskipped _ => exact ⟨(k, t) :: more, hskipped⟩

protected theorem pure (a : α) : Extends (pure a) (pure a) s := .same rfl rfl

protected theorem fail (expected : Expectation) :
    Extends (fail expected : Parser α) (fail expected) s := .same rfl rfl

/-- Once the runs differ the first one has failed, and only what the second one passes over still
counts. -/
protected theorem bind (hp : Extends p q s)
    (hf : ∀ a s', q.run s = .ok a s' → Extends (f a) (g a) s') :
    Extends (p >>= f) (q >>= g) s := by
  cases hq : q.run s with
  | error failure s' =>
    have hbind : (q >>= g).run s = .error failure s' := by rw [EStateM.run_bind, hq]
    cases hp with
    | same hrun hskipped =>
      have hrun' : (p >>= f).run s = .error failure s' := by rw [EStateM.run_bind, hrun, hq]
      rw [hq] at hskipped
      exact .same (hrun'.trans hbind.symm) (by rw [hbind]; exact hskipped)
    | skips k t more rest hskipped hrun =>
      rw [hq] at hskipped
      exact .skips k t more rest (by rw [hbind]; exact hskipped) (by rw [EStateM.run_bind, hrun])
  | ok a s' =>
    have hbind : (q >>= g).run s = (g a).run s' := by rw [EStateM.run_bind, hq]
    have hnext := hf a s' hq
    cases hp with
    | same hrun hskipped =>
      have hrun' : (p >>= f).run s = (f a).run s' := by rw [EStateM.run_bind, hrun, hq]
      have hs' : s'.skipped = s.skipped := by rwa [hq] at hskipped
      cases hnext with
      | same hrun₂ hskipped₂ =>
        refine .same (by rw [hrun', hbind, hrun₂]) ?_
        rw [hbind, hskipped₂, hs']
      | skips k t more rest hskipped₂ hrun₂ =>
        rw [hs'] at hskipped₂ hrun₂
        exact .skips k t more rest (by rw [hbind, hskipped₂]) (by rw [hrun', hrun₂])
    | skips k t more rest hskipped hrun =>
      obtain ⟨more', hmore⟩ := hnext.exists_skipped
      have hs' : s'.skipped = s.skipped ++ (k, t) :: more := by rwa [hq] at hskipped
      refine .skips k t (more ++ more') rest ?_ (by rw [EStateM.run_bind, hrun])
      rw [hbind, hmore, hs', List.append_assoc, List.cons_append]

/-- The second of two parsers only puts the value into another form. -/
theorem andReturn {h : α → β} (hp : Extends p q s) :
    Extends (p >>= fun a => pure (h a)) (q >>= fun a => pure (h a)) s :=
  hp.bind fun a _ _ => .pure (h a)

/-- A test looks at the next token and passes over none. -/
theorem test {a : α} (h : p.run s = .ok a s) (hf : Extends (f a) (g a) s) :
    Extends (p >>= f) (p >>= g) s := by
  refine Extends.bind (.same rfl (by rw [h]; rfl)) fun a' s' hrun => ?_
  rw [h] at hrun
  cases hrun
  exact hf

protected theorem current {f g : Token → Parser β}
    (hf : Extends (f (next s.rest)) (g (next s.rest)) s) :
    Extends (current >>= f) (current >>= g) s :=
  test (run_current s) hf

protected theorem check {kind : Token.Kind} {f g : Bool → Parser β}
    (hf : ∀ b, Extends (f b) (g b) s) : Extends (check kind >>= f) (check kind >>= g) s :=
  test (run_check kind s) (hf _)

protected theorem checkValue {kind : Token.Kind} {value : String} {f g : Bool → Parser β}
    (hf : ∀ b, Extends (f b) (g b) s) :
    Extends (checkValue kind value >>= f) (checkValue kind value >>= g) s :=
  test (run_checkValue kind value s) (hf _)

protected theorem advance : Extends advance advance s := .same rfl rfl

/-- Where a statement has to begin, one parser fails at the token that the other passes over. -/
protected theorem skip (h : (next s.rest).kind ≠ .eof) {a : α} :
    Extends (fail .statement) (do skip; return a) s := by
  obtain ⟨_ | ⟨t, ts⟩, n, skipped⟩ := s
  · exact absurd rfl h
  · exact .skips n t [] ts rfl rfl

protected theorem expect (kind : Token.Kind) : Extends (expect kind) (expect kind) s := by
  apply Extends.check
  intro b
  cases b with
  | true => exact .advance
  | false => exact .fail _

protected theorem expectValue (kind : Token.Kind) (value : String) :
    Extends (expectValue kind value) (expectValue kind value) s := by
  apply Extends.checkValue
  intro b
  cases b with
  | true => exact .advance
  | false => exact .fail _

protected theorem optional (kind : Token.Kind) : Extends (optional kind) (optional kind) s := by
  apply Extends.check
  intro b
  cases b with
  | true => exact Extends.advance.andReturn
  | false => exact .pure _

end Extends

/-! ## Programs -/

theorem numberOf_extends (t : Token) (s : State) : Extends (numberOf t) (numberOf t) s := by
  unfold numberOf
  cases Text.Numeral.read t.value with
  | ok n => exact .pure _
  | error fault => exact .same rfl rfl

theorem primary_extends (s : State) : Extends primary primary s := by
  apply Extends.current
  split
  · exact Extends.advance.bind fun _ _ _ => numberOf_extends _ _
  · exact Extends.advance.andReturn
  · exact Extends.advance.andReturn
  · exact .fail _

/-- Only at the beginning of a statement does the mode make a difference. -/
theorem statementUpTo_extends {fuel : Nat} {s : State} (hdeclaration : Extends declaration declaration s)
    (hprinting : Extends printing printing s)
    (hbranch : Extends (branchUpTo .strict fuel) (branchUpTo .permissive fuel) s)
    (hloop : Extends (loopUpTo .strict fuel) (loopUpTo .permissive fuel) s)
    (hsimple : Extends simple simple s) :
    Extends (statementUpTo .strict (fuel + 1)) (statementUpTo .permissive (fuel + 1)) s := by
  apply Extends.current
  split
  · exact hdeclaration.andReturn
  · exact hprinting.andReturn
  · exact hbranch.andReturn
  · exact hloop.andReturn
  · exact hsimple.andReturn
  · exact .fail _
  next heof => exact .skip heof

theorem extends_congruence : Congruence .strict .permissive Extends where
  pure a _ := .pure a
  bind hp hf := hp.bind fun a s' _ => hf a s'
  fail _ _ := .fail _
  check _ hf := .check hf
  checkValue _ hf := .checkValue hf
  advance hp := Extends.advance.bind fun _ s' _ => hp s'
  expect _ _ := .expect _
  expectValue _ _ _ := .expectValue _ _
  optional _ _ := .optional _
  primary := primary_extends
  operator hf hp := by
    apply Extends.current
    split
    · exact hf _
    · exact hp
  statement := statementUpTo_extends
  length hp := .test (run_get _) (hp _)

/-- The tokens that the permissive parser passes over, by index, whether it has a program in the end
or fails. -/
def passedOver (tokens : List Token) : List (Nat × Token) :=
  (lastState ((program .permissive).run (.start tokens))).skipped

end Parser

open Boli.Parser (passedOver)

/-- As long as the permissive parser passes over nothing, both parsers have the same program or the
same failure. At the first token that the permissive one passes over, the strict one fails for want
of a statement, whatever comes behind. So the permissive parser accepts all that the strict one does,
for the same program. -/
theorem parse_permissive_extends_strict {tokens : List Token} (hn : Parser.Numerals tokens) :
    (passedOver tokens = [] →
      parse .strict tokens = parse .permissive tokens ∧
      ((∃ p, parse .permissive tokens = .ok p) ∨
        ∃ expected found, parse .permissive tokens = .error (.unexpected expected found))) ∧
    (∀ k t more, passedOver tokens = (k, t) :: more →
      tokens[k]? = some t ∧ parse .strict tokens = .error (.unexpected .statement t) ∧
      ∃ s, (Parser.program .strict).run (.start tokens) = .error (.unexpected .statement t) s ∧
        s.position = k ∧ s.rest = tokens.drop k) ∧
    ∀ p, parse .strict tokens = .ok p → parse .permissive tokens = .ok p := by
  have hextends := Parser.extends_congruence.program (.start tokens)
  refine ⟨fun hnone => ?_, fun k t more hskipped => ?_, fun p hp => ?_⟩
  · cases hextends with
    | same hrun _ =>
      have hsame : parse .strict tokens = parse .permissive tokens := by
        unfold parse
        rw [hrun]
      refine ⟨hsame, ?_⟩
      rw [← hsame]
      cases hparse : parse .strict tokens with
      | ok p => exact .inl ⟨p, rfl⟩
      | error failure =>
        obtain ⟨expected, found, rfl⟩ := Parser.exists_unexpected_of_parse hn hparse
        exact .inr ⟨expected, found, rfl⟩
    | skips k t more rest hskipped _ => exact nomatch hnone.symm.trans hskipped
  · cases hextends with
    | same _ hnone => exact nomatch hnone.symm.trans hskipped
    | skips k' t' more' rest hskipped' hrun =>
      obtain ⟨hfirst, -⟩ := List.cons.inj (hskipped.symm.trans hskipped')
      cases hfirst
      have hdrop : tokens.drop k = t :: rest :=
        Parser.drop_of_lastState .strict tokens (congrArg Parser.lastState hrun)
      refine ⟨?_, Parser.parse_eq_error hrun, _, hrun, rfl, hdrop.symm⟩
      rw [← List.head?_drop, hdrop, List.head?_cons]
  · cases hextends with
    | same hrun _ =>
      unfold parse at hp ⊢
      rwa [← hrun]
    | skips k t more rest _ hrun =>
      rw [Parser.parse_eq_error hrun] at hp
      cases hp

/-- A loop inside a block, with a marker in front of its body where a loop may have one, another
marker behind that, and a brace too many at the end. -/
def secondMarker : List Token :=
  [{ kind := .keyword .ifStart, value := "agar" }, { kind := .number, value := "007" },
    { kind := .operator, value := "<" }, { kind := .identifier, value := "x" },
    { kind := .openBrace, value := "\x7b" },
    { kind := .keyword .whileStart, value := "jabtak" }, { kind := .identifier, value := "x" },
    { kind := .operator, value := "==" }, { kind := .string, value := "a" },
    { kind := .keyword .loopStart, value := "tabtak" },
    { kind := .keyword .loopStart, value := "tabtak" },
    { kind := .keyword .print, value := "bol" }, { kind := .number, value := "3" },
    { kind := .closeBrace, value := "\x7d" }, { kind := .closeBrace, value := "\x7d" }]

/-- The strict parser fails at the second marker, and the permissive one goes on to the brace. -/
theorem parse_permissive_secondMarker :
    let marker : Token := { kind := .keyword .loopStart, value := "tabtak" }
    Parser.Numerals secondMarker ∧
    passedOver secondMarker = [(10, marker), (14, { kind := .closeBrace, value := "\x7d" })] ∧
    secondMarker[10]? = some marker ∧
    parse .strict secondMarker = .error (.unexpected .statement marker) ∧
    ∃ s, (Parser.program .strict).run (.start secondMarker) =
        .error (.unexpected .statement marker) s ∧
      s.position = 10 ∧ s.rest = secondMarker.drop 10 := by
  intro marker
  have hn : Parser.Numerals secondMarker := by decide
  have hskipped : passedOver secondMarker =
      [(10, marker), (14, { kind := .closeBrace, value := "\x7d" })] := by rfl
  exact ⟨hn, hskipped, (parse_permissive_extends_strict hn).2.1 10 _ _ hskipped⟩

end Boli

import Boli.Proofs.Parsing.Locality
import Boli.Proofs.Parsing.Pairs
import Boli.Proofs.Results
import Mathlib.Data.List.Forall2

/-!
# What the parser reads of a token

The parser reads the kind of a token and, unless the token is a keyword, its value. It does not read
how the token is spelled or where it stands. Tokens that are the same in what it reads are `Alike`,
and on alike tokens the parser has the same program, or it fails for the same reason at the same
index (`parse_alike`).

`InStep` says so of two runs from alike states, which are at alike states again when they end. As
long as a token is only handed on, the two runs may have different ones, so that the judgement is
about values that are related. The steps of the parser keep it where the values are the same
(`Parser.inStep_tandem`).
-/

set_option autoImplicit false

namespace Boli

open Grammar (next)

/-- The parser makes the same of two tokens: they have the same kind and, if that is no keyword, the
same value. -/
structure Token.Alike (t u : Token) : Prop where
  kind_eq : u.kind = t.kind
  value_eq : (∀ k, t.kind ≠ .keyword k) → u.value = t.value

theorem Token.Alike.refl (t : Token) : t.Alike t := ⟨rfl, fun _ => rfl⟩

theorem Token.Alike.value_eq_of_kind {t u : Token} (h : t.Alike u) {kind : Token.Kind}
    (hkind : t.kind = kind) (hkeyword : ∀ k, kind ≠ .keyword k) : u.value = t.value :=
  h.value_eq (hkind ▸ hkeyword)

namespace Parser

variable {α β : Type} {s : State}

/-! ## Two runs in step -/

/-- States with alike tokens left, of which as many are read. What was passed over is left open, as
the parser does not go by it. -/
structure State.Alike (s s' : State) : Prop where
  rest : List.Forall₂ Token.Alike s.rest s'.rest
  position_eq : s'.position = s.position

theorem State.Alike.next {s s' : State} (h : s.Alike s') : (next s.rest).Alike (next s'.rest) := by
  obtain ⟨hrest, -⟩ := h
  generalize s.rest = ts at hrest ⊢
  generalize s'.rest = us at hrest ⊢
  cases hrest with
  | nil => exact .refl _
  | cons ht _ => exact ht

theorem State.Alike.tail {s s' : State} (h : s.Alike s') :
    List.Forall₂ Token.Alike s.rest.tail s'.rest.tail := by
  obtain ⟨hrest, -⟩ := h
  generalize s.rest = ts at hrest ⊢
  generalize s'.rest = us at hrest ⊢
  cases hrest with
  | nil => exact .nil
  | cons _ hts => exact hts

/-- The ends of two runs: related values in alike states, or failures for the same reason. -/
inductive AlikeEnds (R : α → α → Prop) :
    EStateM.Result Failure State α → EStateM.Result Failure State α → Prop where
  | ok {a b : α} {s s' : State} : R a b → s.Alike s' → AlikeEnds R (.ok a s) (.ok b s')
  | unexpected (expected : Expectation) {s s' : State} : s.Alike s' →
      AlikeEnds R (.error (.unexpected expected (next s.rest)) s)
        (.error (.unexpected expected (next s'.rest)) s')
  | numeral (fault : Text.Numeral.Fault) {s s' : State} : s.Alike s' →
      AlikeEnds R (.error (.numeral fault) s) (.error (.numeral fault) s')

theorem AlikeEnds.lastState {R : α → α → Prop} {r r' : EStateM.Result Failure State α}
    (h : AlikeEnds R r r') : (lastState r).Alike (lastState r') := by
  cases h with
  | ok _ hs => exact hs
  | unexpected _ hs => exact hs
  | numeral _ hs => exact hs

/-- From a state on and from any that is alike, two parsers go in step to values that are related. -/
def InStep (R : α → α → Prop) (p q : Parser α) (s : State) : Prop :=
  ∀ s', s.Alike s' → AlikeEnds R (p.run s) (q.run s')

namespace InStep

variable {R : α → α → Prop} {S : β → β → Prop} {p q : Parser α} {f g : α → Parser β}

protected theorem pure {a b : α} (h : R a b) : InStep R (pure a) (pure b) s := fun _ hs => .ok h hs

protected theorem fail (expected : Expectation) :
    InStep R (fail expected : Parser α) (fail expected) s := fun _ hs => .unexpected expected hs

protected theorem bind (hp : InStep R p q s) (hf : ∀ a b s', R a b → InStep S (f a) (g b) s') :
    InStep S (p >>= f) (q >>= g) s := by
  intro s' hs
  have hends := hp s' hs
  rw [EStateM.run_bind, EStateM.run_bind]
  generalize p.run s = r at hends ⊢
  generalize q.run s' = r' at hends ⊢
  cases hends with
  | ok hab hs₁ => exact hf _ _ _ hab _ hs₁
  | unexpected expected hs₁ => exact .unexpected expected hs₁
  | numeral fault hs₁ => exact .numeral fault hs₁

/-- Where the values are the same, both runs go on with the same one. -/
theorem bind_eq (hp : InStep Eq p q s) (hf : ∀ a s', InStep S (f a) (g a) s') :
    InStep S (p >>= f) (q >>= g) s :=
  hp.bind fun a _ s' hab => hab ▸ hf a s'

theorem andReturn {h : α → β} (hp : InStep Eq p q s) :
    InStep Eq (p >>= fun a => pure (h a)) (q >>= fun a => pure (h a)) s :=
  hp.bind_eq fun _ _ => .pure rfl

/-! ## Single tokens -/

/-- A test comes out the same in alike states, and it takes no token. -/
theorem test {a : α} (hp : p.run s = .ok a s) (hq : ∀ s', s.Alike s' → q.run s' = .ok a s')
    (hf : InStep S (f a) (g a) s) : InStep S (p >>= f) (q >>= g) s := by
  intro s' hs
  rw [EStateM.run_bind, EStateM.run_bind, hp, hq s' hs]
  exact hf s' hs

protected theorem current {f g : Token → Parser β}
    (hf : ∀ u, (next s.rest).Alike u → InStep S (f (next s.rest)) (g u) s) :
    InStep S (current >>= f) (current >>= g) s :=
  fun s' hs => hf _ hs.next s' hs

protected theorem check {kind : Token.Kind} {f g : Bool → Parser β}
    (hf : ∀ b, (b = true → (next s.rest).kind = kind) → InStep S (f b) (g b) s) :
    InStep S (check kind >>= f) (check kind >>= g) s := by
  refine test (run_check kind s) (fun s' hs => ?_) (hf _ of_decide_eq_true)
  rw [run_check, hs.next.kind_eq]

/-- A sign is no keyword, so that its value is the same. -/
protected theorem checkSign {value : String} {f g : Bool → Parser β}
    (hf : ∀ b, InStep S (f b) (g b) s) :
    InStep S (checkValue .operator value >>= f) (checkValue .operator value >>= g) s := by
  refine test (run_checkValue .operator value s) (fun s' hs => ?_) (hf _)
  rw [run_checkValue, hs.next.kind_eq]
  by_cases hkind : (next s.rest).kind = .operator
  · rw [hs.next.value_eq_of_kind hkind nofun]
  · rw [decide_eq_false hkind, Bool.false_and, Bool.false_and]

/-- The tokens that are taken are the ones that stand next. -/
protected theorem advance :
    InStep (fun t u => t = next s.rest ∧ t.Alike u) advance advance s :=
  fun _ hs => .ok ⟨rfl, hs.next⟩ ⟨hs.tail, congrArg (· + 1) hs.position_eq⟩

protected theorem skip : InStep Eq skip skip s :=
  fun _ hs => .ok rfl ⟨hs.tail, congrArg (· + 1) hs.position_eq⟩

protected theorem expect (kind : Token.Kind) :
    InStep (fun t u => t.kind = kind ∧ t.Alike u) (expect kind) (expect kind) s := by
  apply InStep.check
  intro b hb
  cases b with
  | true =>
    intro s' hs
    exact .ok ⟨hb rfl, hs.next⟩ ⟨hs.tail, congrArg (· + 1) hs.position_eq⟩
  | false => exact .fail _

protected theorem expectSign (value : String) :
    InStep Token.Alike (expectValue .operator value) (expectValue .operator value) s := by
  apply InStep.checkSign
  intro b
  cases b with
  | true => exact fun s' hs => .ok hs.next ⟨hs.tail, congrArg (· + 1) hs.position_eq⟩
  | false => exact .fail _

protected theorem optional (kind : Token.Kind) :
    InStep (fun _ _ => True) (optional kind) (optional kind) s := by
  apply InStep.check
  intro b _
  cases b with
  | true => exact InStep.advance.bind fun _ _ _ _ => .pure trivial
  | false => exact .pure trivial

end InStep

/-! ## Programs -/

theorem numberOf_inStep {t u : Token} (h : u.value = t.value) (s : State) :
    InStep Eq (numberOf t) (numberOf u) s := by
  intro s' hs
  rw [numberOf, numberOf, h]
  cases Text.Numeral.read t.value with
  | ok n => exact .ok rfl hs
  | error fault => exact .numeral fault hs

/-- No primary is a keyword. -/
theorem primary_inStep (s : State) : InStep Eq primary primary s := by
  apply InStep.current
  intro u hu
  rw [hu.kind_eq]
  split
  next hkind =>
    have hvalue := hu.value_eq_of_kind hkind nofun
    exact InStep.advance.bind fun _ _ s' _ => numberOf_inStep hvalue s'
  next hkind =>
    rw [hu.value_eq_of_kind hkind nofun]
    exact InStep.advance.bind fun _ _ _ _ => .pure rfl
  next hkind =>
    rw [hu.value_eq_of_kind hkind nofun]
    exact InStep.advance.bind fun _ _ _ _ => .pure rfl
  · exact .fail _

/-- A statement is told by the kind of its first token. -/
theorem statementUpTo_inStep {mode : Strictness} {fuel : Nat} {s : State}
    (hdeclaration : InStep Eq declaration declaration s)
    (hprinting : InStep Eq printing printing s)
    (hbranch : InStep Eq (branchUpTo mode fuel) (branchUpTo mode fuel) s)
    (hloop : InStep Eq (loopUpTo mode fuel) (loopUpTo mode fuel) s)
    (hsimple : InStep Eq simple simple s) :
    InStep Eq (statementUpTo mode (fuel + 1)) (statementUpTo mode (fuel + 1)) s := by
  apply InStep.current
  intro u hu
  rw [hu.kind_eq]
  split
  · exact hdeclaration.andReturn
  · exact hprinting.andReturn
  · exact hbranch.andReturn
  · exact hloop.andReturn
  · exact hsimple.andReturn
  · exact .fail _
  · cases mode with
    | strict => exact .fail _
    | permissive => exact InStep.skip.andReturn

theorem operator_inStep {operators : List String} (f : String → Parser β) {p : Parser β}
    (hf : ∀ sign, InStep Eq (f sign) (f sign) s) (hp : InStep Eq p p s) :
    InStep Eq
      (do let t ← current; if t.kind = .operator ∧ t.value ∈ operators then f t.value else p)
      (do let t ← current; if t.kind = .operator ∧ t.value ∈ operators then f t.value else p) s := by
  apply InStep.current
  intro u hu
  rw [hu.kind_eq]
  by_cases hkind : (next s.rest).kind = .operator
  · rw [hu.value_eq_of_kind hkind nofun]
    split
    · exact hf _
    · exact hp
  · rw [if_neg fun h => hkind h.1, if_neg fun h => hkind h.1]
    exact hp

theorem inStep_tandem (mode : Strictness) : Tandem mode mode (InStep Eq) where
  pure a _ := .pure rfl
  bind := .bind_eq
  fail _ _ := .fail _
  check _ hf := .check fun b _ => hf b
  checkSign := .checkSign
  advance hp := InStep.advance.bind fun _ _ s' _ => hp s'
  expect _ hp := (InStep.expect _).bind fun _ _ s' _ => hp s'
  expectSign hp := (InStep.expectSign _).bind fun _ _ s' _ => hp s'
  expectName f _ hf := (InStep.expect _).bind fun t u s' h => by
    rw [h.2.value_eq_of_kind h.1 nofun]
    exact hf t.value s'
  optional _ hp := (InStep.optional _).bind fun _ _ s' _ => hp s'
  primary := primary_inStep
  operator f _ _ := operator_inStep f
  statement := statementUpTo_inStep
  length {β p q s} hp := by
    intro s' hs
    have hrun : (do q (← get).rest.length).run s' = (q s.rest.length).run s' := by
      rw [hs.rest.length_eq]
      rfl
    rw [hrun]
    exact hp _ s' hs

/-! ## Where the parser stops -/

/-- The index of the token at which the parser stops. -/
def stop (mode : Strictness) (tokens : List Token) : Nat :=
  (lastState ((program mode).run (.start tokens))).position

/-- The token at which the parser stops; behind the last one it is the end of the input. -/
def tokenAtStop (mode : Strictness) (tokens : List Token) : Token :=
  tokens[stop mode tokens]?.getD Token.endOfInput

/-- Failures on tokens and on others for the same reason. If that is a token that does not fit, it
stands at the same index and has the same kind. -/
inductive Failure.Alike (mode : Strictness) (ts us : List Token) : Failure → Failure → Prop where
  | unexpected (expected : Expectation) : stop mode us = stop mode ts →
      (tokenAtStop mode us).kind = (tokenAtStop mode ts).kind →
      Failure.Alike mode ts us (.unexpected expected (tokenAtStop mode ts))
        (.unexpected expected (tokenAtStop mode us))
  | numeral (fault : Text.Numeral.Fault) : Failure.Alike mode ts us (.numeral fault) (.numeral fault)

theorem next_lastState (mode : Strictness) (tokens : List Token) :
    next (lastState ((program mode).run (.start tokens))).rest = tokenAtStop mode tokens := by
  rw [← drop_of_lastState mode tokens rfl, next, List.headD_eq_head?_getD, List.head?_drop]
  rfl

end Parser

/-- On alike tokens the parser has the same program, or it fails for the same reason. -/
theorem parse_alike (mode : Strictness) {ts us : List Token} (h : List.Forall₂ Token.Alike ts us) :
    Results.SameOr (Parser.Failure.Alike mode ts us) (parse mode ts) (parse mode us) := by
  have hends := (Parser.inStep_tandem mode).program (.start ts) (.start us) ⟨h, rfl⟩
  have hlast := hends.lastState
  have hkind := hlast.next.kind_eq
  rw [Parser.next_lastState, Parser.next_lastState] at hkind
  have hts := Parser.next_lastState mode ts
  have hus := Parser.next_lastState mode us
  unfold parse
  generalize (Parser.program mode).run (.start ts) = r at hends hts ⊢
  generalize (Parser.program mode).run (.start us) = r' at hends hus ⊢
  cases hends with
  | @ok p _ s s' hp _ =>
    subst hp
    exact .ok p
  | @unexpected expected s s' _ =>
    change next s.rest = _ at hts
    change next s'.rest = _ at hus
    simp only [hts, hus]
    exact .error (.unexpected expected hlast.position_eq hkind)
  | numeral fault _ => exact .error (.numeral fault)

end Boli

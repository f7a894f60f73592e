import Boli.Proofs.Parsing.Pairs

/-!
# Numerals that are too long to be read

A number token of more than 4300 digits is one like any other until the parser reads its value. What
decides whether it comes so far is the parser itself: `Token.blot` gives such tokens a kind of which
the language knows nothing, and on the blotted tokens the parser fails for want of a primary at the
very one that it cannot read otherwise (`parse_eq_numeral_iff`).

`Lockstep` says so of a run and the run on blotted tokens. They make the same steps and end alike, or
the first one ends where the second one stands before a blot.
-/

set_option autoImplicit false

namespace Boli

open Grammar (next)
open Text.Numeral (digitLimit read_of_isDigit)

namespace Token

/-! ## Blots -/

/-- A numeral has more digits than a conversion takes. -/
def IsOverlong (t : Token) : Prop := t.kind = .number ∧ digitLimit < t.value.length

instance (t : Token) : Decidable t.IsOverlong := inferInstanceAs (Decidable (_ ∧ _))

/-- The kind of a token that is blotted out. -/
def Kind.blotted : Kind := .other "BLOTTED"

/-- Makes a numeral that is too long illegible, and leaves other tokens as they are. -/
def blot (t : Token) : Token := if t.IsOverlong then { t with kind := .blotted } else t

variable {t : Token}

theorem blot_eq_self (h : ¬t.IsOverlong) : t.blot = t := if_neg h

theorem kind_blot (h : t.IsOverlong) : t.blot.kind = .blotted := by rw [blot, if_pos h]

theorem value_blot : t.blot.value = t.value := by
  by_cases h : t.IsOverlong
  · rw [blot, if_pos h]
  · rw [blot_eq_self h]

theorem not_isOverlong (h : t.kind.isTested = true) : ¬t.IsOverlong := by
  intro hlong
  rw [hlong.1] at h
  cases h

/-- A test comes out the same under a blot. -/
theorem kind_blot_eq_iff {kind : Kind} (hkind : kind.isTested = true) :
    t.blot.kind = kind ↔ t.kind = kind := by
  by_cases h : t.IsOverlong
  · rw [kind_blot h, h.1]
    constructor
    · rintro rfl
      cases hkind
    · rintro rfl
      cases hkind
  · rw [blot_eq_self h]

/-- A token as the lexer makes it: it is no blot, and a numeral is a run of digits, however long. -/
structure IsLexed (t : Token) : Prop where
  ne_blotted : t.kind ≠ .blotted
  one_le_length : t.kind = .number → 1 ≤ t.value.length
  isDigit : t.kind = .number → ∀ c ∈ t.value.toList, c.isDigit = true

end Token

namespace Parser

variable {α β : Type} {tokens : List Token} {s : State}

/-- The state on blotted tokens. -/
def State.blot (s : State) : State :=
  { s with rest := s.rest.map Token.blot, skipped := s.skipped.map fun e => (e.1, e.2.blot) }

theorem next_blot (s : State) : next s.blot.rest = (next s.rest).blot := by
  obtain ⟨_ | ⟨t, ts⟩, n, skipped⟩ := s
  · rfl
  · rfl

theorem isLexed_next (hl : ∀ t ∈ tokens, t.IsLexed) (hs : s.rest ⊆ tokens) :
    (next s.rest).IsLexed := by
  obtain ⟨_ | ⟨t, ts⟩, n, skipped⟩ := s
  · exact ⟨nofun, nofun, nofun⟩
  · exact hl t (hs List.mem_cons_self)

/-! ## Two runs that make the same steps -/

/-- The ends of a run and of the run on blotted tokens. -/
inductive Agree (tokens : List Token) :
    EStateM.Result Failure State α → EStateM.Result Failure State α → Prop where
  | ok (a : α) {s : State} : s.rest ⊆ tokens → Agree tokens (.ok a s) (.ok a s.blot)
  /-- No blot is the reason why a primary is missed. -/
  | unexpected {expected : Expectation} {t : Token} {s : State} :
      (expected = .primary → t.blot.kind ≠ .blotted) →
      Agree tokens (.error (.unexpected expected t) s) (.error (.unexpected expected t.blot) s.blot)
  /-- A numeral is read, which is illegible under the blot. -/
  | overlong {t : Token} {s s' : State} : t ∈ tokens → t.IsOverlong →
      Agree tokens (.error (.numeral (.tooLongToRead t.value.length)) s)
        (.error (.unexpected .primary t.blot) s')

/-- From a state on, with none but these tokens left, two parsers go in step, the second one on
blotted tokens. -/
def Lockstep (tokens : List Token) (p q : Parser α) (s : State) : Prop :=
  (∀ t ∈ tokens, t.IsLexed) → s.rest ⊆ tokens → Agree tokens (p.run s) (q.run s.blot)

namespace Lockstep

variable {p q : Parser α} {f g : α → Parser β}

protected theorem pure (a : α) : Lockstep tokens (pure a) (pure a) s := fun _ hs => .ok a hs

protected theorem fail {expected : Expectation}
    (h : expected = .primary → (next s.rest).blot.kind ≠ .blotted) :
    Lockstep tokens (fail expected : Parser α) (fail expected) s := by
  intro _ _
  have hrun : (fail expected : Parser α).run s.blot =
      .error (.unexpected expected (next s.rest).blot) s.blot := by rw [← next_blot]; rfl
  rw [hrun]
  exact .unexpected h

/-- Once the first run is at a numeral that is too long, both have failed. -/
protected theorem bind (hp : Lockstep tokens p q s)
    (hf : ∀ a s', Lockstep tokens (f a) (g a) s') : Lockstep tokens (p >>= f) (q >>= g) s := by
  intro hl hs
  have hagree := hp hl hs
  rw [EStateM.run_bind, EStateM.run_bind]
  generalize p.run s = r at hagree ⊢
  generalize q.run s.blot = r' at hagree ⊢
  cases hagree with
  | ok a hs' => exact hf a _ hl hs'
  | unexpected h => exact .unexpected h
  | overlong ht hlong => exact .overlong ht hlong

theorem andReturn {h : α → β} (hp : Lockstep tokens p q s) :
    Lockstep tokens (p >>= fun a => pure (h a)) (q >>= fun a => pure (h a)) s :=
  hp.bind fun a _ => .pure (h a)

/-- Tests take no token, and they may come out differently. -/
theorem test {a b : α} (ha : p.run s = .ok a s) (hb : q.run s.blot = .ok b s.blot)
    (hf : Lockstep tokens (f a) (g b) s) : Lockstep tokens (p >>= f) (q >>= g) s := by
  intro hl hs
  rw [EStateM.run_bind, EStateM.run_bind, ha, hb]
  exact hf hl hs

protected theorem current {f g : Token → Parser β}
    (hf : Lockstep tokens (f (next s.rest)) (g (next s.rest).blot) s) :
    Lockstep tokens (current >>= f) (current >>= g) s :=
  test (run_current s) (run_current s.blot) (by rwa [next_blot])

protected theorem check {kind : Token.Kind} (hkind : kind.isTested = true) {f g : Bool → Parser β}
    (hf : ∀ b, (b = true → (next s.rest).kind = kind) → Lockstep tokens (f b) (g b) s) :
    Lockstep tokens (check kind >>= f) (check kind >>= g) s := by
  have hblot : (check kind).run s.blot = .ok (decide ((next s.rest).kind = kind)) s.blot := by
    rw [run_check, next_blot, decide_eq_decide.mpr (Token.kind_blot_eq_iff hkind)]
  exact test (run_check kind s) hblot (hf _ of_decide_eq_true)

protected theorem checkValue {kind : Token.Kind} (hkind : kind.isTested = true) {value : String}
    {f g : Bool → Parser β}
    (hf : ∀ b, (b = true → (next s.rest).kind = kind) → Lockstep tokens (f b) (g b) s) :
    Lockstep tokens (checkValue kind value >>= f) (checkValue kind value >>= g) s := by
  have hblot : (checkValue kind value).run s.blot =
      .ok (decide ((next s.rest).kind = kind) && decide ((next s.rest).value = value)) s.blot := by
    rw [run_checkValue, next_blot, decide_eq_decide.mpr (Token.kind_blot_eq_iff hkind),
      Token.value_blot]
  refine test (run_checkValue kind value s) hblot (hf _ fun h => ?_)
  exact of_decide_eq_true (Bool.and_eq_true_iff.mp h).1

theorem run_advance_blot (s : State) :
    advance.run s.blot =
      .ok (next s.rest).blot { s with rest := s.rest.tail, position := s.position + 1 }.blot := by
  rw [← next_blot]
  show EStateM.Result.ok _ _ = _
  rw [State.blot, State.blot, List.map_tail]
  rfl

/-- A sign is looked for that stands in no numeral. -/
protected theorem operator {operators : List String} {f g : Token → Parser β} {p q : Parser β}
    (hf : ∀ t, Lockstep tokens (f t) (g t) s) (hp : Lockstep tokens p q s) :
    Lockstep tokens (do let t ← current; if t.kind = .operator ∧ t.value ∈ operators then f t else p)
      (do let t ← current; if t.kind = .operator ∧ t.value ∈ operators then g t else q) s := by
  apply Lockstep.current
  by_cases h : (next s.rest).kind = .operator ∧ (next s.rest).value ∈ operators
  · rw [Token.blot_eq_self (Token.not_isOverlong (h.1 ▸ rfl)), if_pos h, if_pos h]
    exact hf _
  · have hblot : ¬((next s.rest).blot.kind = .operator ∧ (next s.rest).blot.value ∈ operators) := by
      rwa [Token.kind_blot_eq_iff rfl, Token.value_blot]
    rw [if_neg h, if_neg hblot]
    exact hp

protected theorem advance (h : ¬(next s.rest).IsOverlong) : Lockstep tokens advance advance s := by
  intro _ hs
  rw [run_advance_blot, Token.blot_eq_self h]
  exact .ok _ fun t ht => hs (List.mem_of_mem_tail ht)

/-- A token that is taken and not looked at may be a blot. -/
theorem bind_advance {p q : Parser β} (hp : ∀ s', Lockstep tokens p q s') :
    Lockstep tokens (advance >>= fun _ => p) (advance >>= fun _ => q) s := by
  intro hl hs
  rw [EStateM.run_bind, EStateM.run_bind, run_advance_blot]
  exact hp _ hl fun t ht => hs (List.mem_of_mem_tail ht)

protected theorem skip : Lockstep tokens skip skip s := by
  intro _ hs
  have hrun : skip.run s.blot = .ok () { s with
      rest := s.rest.tail, position := s.position + 1
      skipped := s.skipped ++ [(s.position, next s.rest)] }.blot := by
    show EStateM.Result.ok _ _ = _
    rw [State.blot, State.blot, List.map_tail, List.map_append, List.map_singleton, ← next_blot]
    rfl
  rw [hrun]
  exact .ok _ fun t ht => hs (List.mem_of_mem_tail ht)

protected theorem expect {kind : Token.Kind} (hkind : kind.isTested = true) :
    Lockstep tokens (expect kind) (expect kind) s := by
  apply Lockstep.check hkind
  intro b hb
  cases b with
  | true => exact .advance (Token.not_isOverlong (hb rfl ▸ hkind))
  | false => exact .fail nofun

protected theorem expectValue {kind : Token.Kind} (hkind : kind.isTested = true) (value : String) :
    Lockstep tokens (expectValue kind value) (expectValue kind value) s := by
  apply Lockstep.checkValue hkind
  intro b hb
  cases b with
  | true => exact .advance (Token.not_isOverlong (hb rfl ▸ hkind))
  | false => exact .fail nofun

protected theorem optional {kind : Token.Kind} (hkind : kind.isTested = true) :
    Lockstep tokens (optional kind) (optional kind) s := by
  apply Lockstep.check hkind
  intro b hb
  cases b with
  | true => exact (Lockstep.advance (Token.not_isOverlong (hb rfl ▸ hkind))).andReturn
  | false => exact .pure _

end Lockstep

/-! ## Programs -/

theorem numberOf_lockstep {t : Token} (ht : t.IsLexed) (hkind : t.kind = .number)
    (hlong : ¬t.IsOverlong) (s : State) : Lockstep tokens (numberOf t) (numberOf t) s := by
  intro _ hs
  have hread := read_of_isDigit (ht.one_le_length hkind) (ht.isDigit hkind)
  rw [if_neg fun h => hlong ⟨hkind, h⟩] at hread
  rw [numberOf, hread]
  exact .ok _ hs

/-- A numeral that is too long is taken, and then it cannot be read. -/
theorem run_primary_of_isOverlong (hlong : (next s.rest).IsOverlong) (ht : (next s.rest).IsLexed) :
    ∃ s', primary.run s = .error (.numeral (.tooLongToRead (next s.rest).value.length)) s' := by
  have hkind := hlong.1
  have hread := read_of_isDigit (ht.one_le_length hkind) (ht.isDigit hkind)
  rw [if_pos hlong.2] at hread
  refine ⟨{ s with rest := s.rest.tail, position := s.position + 1 }, ?_⟩
  rw [primary, EStateM.run_bind, run_current]
  simp only [hkind]
  show (numberOf (next s.rest)).run _ = _
  rw [numberOf, hread]
  rfl

/-- Its blot is no primary. -/
theorem run_primary_blot (hlong : (next s.rest).IsOverlong) :
    primary.run s.blot = .error (.unexpected .primary (next s.rest).blot) s.blot := by
  rw [primary, EStateM.run_bind, run_current, next_blot]
  simp only [Token.kind_blot hlong]
  rw [← next_blot]
  rfl

/-- This is where the two runs may part. -/
theorem primary_lockstep (s : State) : Lockstep tokens primary primary s := by
  intro hl hs
  have ht := isLexed_next hl hs
  by_cases hlong : (next s.rest).IsOverlong
  · have hmem : next s.rest ∈ tokens := hs (next_mem (by rw [hlong.1]; decide))
    obtain ⟨s', hrun⟩ := run_primary_of_isOverlong hlong ht
    rw [hrun, run_primary_blot hlong]
    exact .overlong hmem hlong
  · refine Lockstep.current ?_ hl hs
    rw [Token.blot_eq_self hlong]
    split
    next hkind => exact Lockstep.bind_advance (numberOf_lockstep ht hkind hlong)
    · exact Lockstep.bind_advance fun _ => .pure _
    · exact Lockstep.bind_advance fun _ => .pure _
    · refine .fail fun _ => ?_
      rw [Token.blot_eq_self hlong]
      exact ht.ne_blotted

/-- No statement begins with a numeral, and none with a blot. -/
theorem statementUpTo_lockstep {mode : Strictness} {fuel : Nat} {s : State}
    (hdeclaration : Lockstep tokens declaration declaration s)
    (hprinting : Lockstep tokens printing printing s)
    (hbranch : Lockstep tokens (branchUpTo mode fuel) (branchUpTo mode fuel) s)
    (hloop : Lockstep tokens (loopUpTo mode fuel) (loopUpTo mode fuel) s)
    (hsimple : Lockstep tokens simple simple s) :
    Lockstep tokens (statementUpTo mode (fuel + 1)) (statementUpTo mode (fuel + 1)) s := by
  apply Lockstep.current
  by_cases hlong : (next s.rest).IsOverlong
  · rw [hlong.1, Token.kind_blot hlong]
    cases mode with
    | strict => exact .fail nofun
    | permissive => exact Lockstep.skip.andReturn
  · rw [Token.blot_eq_self hlong]
    split
    · exact hdeclaration.andReturn
    · exact hprinting.andReturn
    · exact hbranch.andReturn
    · exact hloop.andReturn
    · exact hsimple.andReturn
    · exact .fail nofun
    · cases mode with
      | strict => exact .fail nofun
      | permissive => exact Lockstep.skip.andReturn

theorem lockstep_congruence (mode : Strictness) : Congruence mode mode (Lockstep tokens) where
  pure a _ := .pure a
  bind := .bind
  fail _ h := .fail fun heq => absurd heq h
  check hkind hf := .check hkind fun b _ => hf b
  checkValue hkind hf := .checkValue hkind fun b _ => hf b
  advance := .bind_advance
  expect _ := .expect
  expectValue value _ hkind := .expectValue hkind value
  optional _ := .optional
  primary := primary_lockstep
  operator := .operator
  statement := statementUpTo_lockstep
  length {β p q s} hp := by
    apply Lockstep.test (run_get s) (run_get s.blot)
    rw [show s.blot.rest.length = s.rest.length from List.length_map _]
    exact hp _

end Parser

/-- The parser comes to read a numeral that is too long just when, on blotted tokens, it misses a
primary at the blot of one. That one is the numeral. -/
theorem parse_eq_numeral_iff {tokens : List Token} (hl : ∀ t ∈ tokens, t.IsLexed)
    {mode : Strictness} {fault : Text.Numeral.Fault} :
    parse mode tokens = .error (.numeral fault) ↔
      ∃ t ∈ tokens, t.IsOverlong ∧
        parse mode (tokens.map Token.blot) = .error (.unexpected .primary t.blot) ∧
        fault = .tooLongToRead t.value.length := by
  have hagree := (Parser.lockstep_congruence mode).program (.start tokens) hl (List.Subset.refl tokens)
  rw [show (Parser.State.start tokens).blot = .start (tokens.map Token.blot) from rfl] at hagree
  unfold parse
  generalize (Parser.program mode).run (.start tokens) = r at hagree ⊢
  generalize (Parser.program mode).run (.start (tokens.map Token.blot)) = r' at hagree ⊢
  cases hagree with
  | ok p hs =>
    constructor
    · exact nofun
    · rintro ⟨t, -, -, hparse, -⟩
      cases hparse
  | @unexpected expected u s hprimary =>
    constructor
    · exact nofun
    · rintro ⟨t, -, hlong, hparse, -⟩
      simp only [Except.error.injEq, Parser.Failure.unexpected.injEq] at hparse
      obtain ⟨hexpected, hblot⟩ := hparse
      exact absurd (hblot ▸ Token.kind_blot hlong) (hprimary hexpected)
  | @overlong u s s' hu hlong =>
    simp only [Except.error.injEq, Parser.Failure.unexpected.injEq, Parser.Failure.numeral.injEq,
      true_and]
    constructor
    · rintro rfl
      exact ⟨u, hu, hlong, rfl, rfl⟩
    · rintro ⟨t, -, -, hblot, rfl⟩
      rw [← Token.value_blot, hblot, Token.value_blot]

end Boli

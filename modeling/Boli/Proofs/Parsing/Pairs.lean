import Boli.Proofs.Parsing

/-!
# Pairs of runs

Two runs of the parser are compared by a judgement on pairs of parsers in a state, which the steps of
the parser keep. What they have to keep is put together in `Tandem`; that the judgement then holds of
whole programs is said once for all such judgements (`Tandem.program`).

The clauses ask for no more than the parser does. It tests for some kinds only, and a primary and the
beginning of a statement, where it looks at a token more closely, have clauses of their own. Of the
tokens that it takes elsewhere it hands on the value of a name or a sign, or nothing. So the two runs
need not take the same tokens; where they do, `Congruence` has the clauses for single tokens in a
simpler form.
-/

set_option autoImplicit false

namespace Boli

/-- The kinds that the parser tests a token for. Literals are only ever read as primaries. -/
def Token.Kind.isTested : Kind → Bool
  | .keyword _ | .identifier | .operator | .semicolon | .openBrace | .closeBrace | .eof => true
  | .number | .string | .other _ => false

namespace Parser

/-- A judgement on two parsers in a state, which the steps of the parser keep when it is run in one
mode and in another. No more is asked of two tokens that are taken than the parser makes use of. -/
structure Tandem (mode mode' : Strictness)
    (J : ∀ {α : Type}, Parser α → Parser α → State → Prop) : Prop where
  pure {α : Type} (a : α) (s : State) : J (pure a) (pure a) s
  bind {α β : Type} {p q : Parser α} {f g : α → Parser β} {s : State} :
    J p q s → (∀ a s', J (f a) (g a) s') → J (p >>= f) (q >>= g) s
  fail {α : Type} {expected : Expectation} (s : State) :
    expected ≠ .primary → J (fail expected : Parser α) (fail expected) s
  check {β : Type} {kind : Token.Kind} {f g : Bool → Parser β} {s : State} :
    kind.isTested = true → (∀ b, J (f b) (g b) s) → J (check kind >>= f) (check kind >>= g) s
  checkSign {β : Type} {value : String} {f g : Bool → Parser β} {s : State} :
    (∀ b, J (f b) (g b) s) →
    J (checkValue .operator value >>= f) (checkValue .operator value >>= g) s
  /-- What comes behind does not look at the token that is taken. -/
  advance {β : Type} {p q : Parser β} {s : State} :
    (∀ s', J p q s') → J (advance >>= fun _ => p) (advance >>= fun _ => q) s
  expect {β : Type} {kind : Token.Kind} {p q : Parser β} {s : State} : kind.isTested = true →
    (∀ s', J p q s') → J (expect kind >>= fun _ => p) (expect kind >>= fun _ => q) s
  expectSign {β : Type} {value : String} {p q : Parser β} {s : State} : (∀ s', J p q s') →
    J (expectValue .operator value >>= fun _ => p) (expectValue .operator value >>= fun _ => q) s
  expectName {β : Type} (f : String → Parser β) {s : State} : (∀ name s', J (f name) (f name) s') →
    J (Parser.expect .identifier >>= fun t => f t.value)
      (Parser.expect .identifier >>= fun t => f t.value) s
  optional {β : Type} {kind : Token.Kind} {p q : Parser β} {s : State} : kind.isTested = true →
    (∀ s', J p q s') → J (optional kind >>= fun _ => p) (optional kind >>= fun _ => q) s
  primary (s : State) : J primary primary s
  operator {β : Type} {operators : List String} (f : String → Parser β) {p : Parser β}
    {s : State} : (∀ sign, J (f sign) (f sign) s) → J p p s →
    J (do let t ← current; if t.kind = .operator ∧ t.value ∈ operators then f t.value else p)
      (do let t ← current; if t.kind = .operator ∧ t.value ∈ operators then f t.value else p) s
  statement {fuel : Nat} {s : State} : J declaration declaration s → J printing printing s →
    J (branchUpTo mode fuel) (branchUpTo mode' fuel) s →
    J (loopUpTo mode fuel) (loopUpTo mode' fuel) s → J simple simple s →
    J (statementUpTo mode (fuel + 1)) (statementUpTo mode' (fuel + 1)) s
  length {β : Type} {p q : Nat → Parser β} {s : State} : (∀ n, J (p n) (q n) s) →
    J (do p (← get).rest.length) (do q (← get).rest.length) s

namespace Tandem

variable {mode mode' : Strictness} {J : ∀ {α : Type}, Parser α → Parser α → State → Prop}
  {α β : Type} {s : State}

theorem andReturn (h : Tandem mode mode' J) {p q : Parser α} {f : α → β} (hp : J p q s) :
    J (p >>= fun a => Pure.pure (f a)) (q >>= fun a => Pure.pure (f a)) s :=
  h.bind hp fun a s' => h.pure (f a) s'

theorem atEnd (h : Tandem mode mode' J) {f g : Bool → Parser β} (hf : ∀ b, J (f b) (g b) s) :
    J (Parser.atEnd >>= f) (Parser.atEnd >>= g) s := by
  have heof : Token.Kind.eof.isTested = true := rfl
  exact h.check heof hf

/-- The mark that may stand behind a statement is not looked at. -/
theorem semicolon (h : Tandem mode mode' J) (a : α) (s : State) :
    J (Parser.optional .semicolon >>= fun _ => Pure.pure a)
      (Parser.optional .semicolon >>= fun _ => Pure.pure a) s :=
  h.optional rfl (h.pure a)

/-! ## Expressions and simple statements -/

theorem expression (h : Tandem mode mode' J) (s : State) :
    J Parser.expression Parser.expression s := by
  apply h.bind (h.primary s)
  intro left s₁
  apply h.operator fun sign => do
    let _ ← Parser.advance
    let right ← Parser.primary
    return Expression.binary sign left right
  · intro sign
    exact h.advance fun s₂ => h.andReturn (h.primary s₂)
  · exact h.pure left s₁

theorem condition (h : Tandem mode mode' J) (s : State) :
    J Parser.condition Parser.condition s := by
  apply h.bind (h.primary s)
  intro left s₁
  apply h.operator fun sign => do
    let _ ← Parser.advance
    let right ← Parser.primary
    return Condition.compare left sign right
  · intro sign
    exact h.advance fun s₂ => h.andReturn (h.primary s₂)
  · exact h.fail s₁ nofun

theorem declaration (h : Tandem mode mode' J) (s : State) :
    J Parser.declaration Parser.declaration s := by
  apply h.expect rfl
  intro s₁
  apply h.expectName fun name => do
    let _ ← Parser.expectValue .operator assignOperator
    let initializer ← Parser.expression
    let _ ← Parser.optional .semicolon
    return Statement.declare name initializer
  intro name s₂
  apply h.expectSign
  intro s₃
  apply h.bind (h.expression s₃)
  intro value s₄
  exact h.semicolon _ s₄

theorem printing (h : Tandem mode mode' J) (s : State) :
    J Parser.printing Parser.printing s := by
  apply h.expect rfl
  intro s₁
  apply h.bind (h.expression s₁)
  intro value s₂
  exact h.semicolon _ s₂

theorem simple (h : Tandem mode mode' J) (s : State) : J Parser.simple Parser.simple s := by
  apply h.expectName fun name => do
    if ← Parser.checkValue .operator assignOperator then
      let _ ← Parser.advance
      let value ← Parser.expression
      let _ ← Parser.optional .semicolon
      return Statement.assign name value
    else
      let _ ← Parser.optional .semicolon
      return Statement.evaluate (.identifier name)
  intro name s₁
  apply h.checkSign
  intro assigned
  cases assigned with
  | true =>
    apply h.advance
    intro s₂
    apply h.bind (h.expression s₂)
    intro value s₃
    exact h.semicolon _ s₃
  | false => exact h.semicolon _ s₁

/-! ## Statements -/

mutual

theorem statementUpTo (h : Tandem mode mode' J) :
    ∀ (fuel : Nat) (s : State), J (Parser.statementUpTo mode fuel) (Parser.statementUpTo mode' fuel) s
  | 0, s => h.fail s nofun
  | fuel + 1, s =>
    h.statement (h.declaration s) (h.printing s) (branchUpTo h fuel s) (loopUpTo h fuel s) (h.simple s)

theorem branchUpTo (h : Tandem mode mode' J) :
    ∀ (fuel : Nat) (s : State), J (Parser.branchUpTo mode fuel) (Parser.branchUpTo mode' fuel) s
  | 0, s => h.fail s nofun
  | fuel + 1, s => by
    apply h.expect rfl
    intro s₁
    apply h.bind (h.condition s₁)
    intro c s₂
    apply h.bind (blockUpTo h fuel s₂)
    intro body s₃
    exact h.andReturn (otherwiseUpTo h fuel s₃)

theorem otherwiseUpTo (h : Tandem mode mode' J) :
    ∀ (fuel : Nat) (s : State), J (Parser.otherwiseUpTo mode fuel) (Parser.otherwiseUpTo mode' fuel) s
  | 0, s => h.fail s nofun
  | fuel + 1, s => by
    apply h.check rfl
    intro elseIf
    cases elseIf with
    | true =>
      apply h.advance
      intro s₁
      apply h.bind (h.condition s₁)
      intro c s₂
      apply h.bind (blockUpTo h fuel s₂)
      intro body s₃
      exact h.andReturn (otherwiseUpTo h fuel s₃)
    | false =>
      apply h.check rfl
      intro elseStart
      cases elseStart with
      | true => exact h.advance fun s₁ => h.andReturn (blockUpTo h fuel s₁)
      | false => exact h.pure _ s

theorem loopUpTo (h : Tandem mode mode' J) :
    ∀ (fuel : Nat) (s : State), J (Parser.loopUpTo mode fuel) (Parser.loopUpTo mode' fuel) s
  | 0, s => h.fail s nofun
  | fuel + 1, s => by
    apply h.expect rfl
    intro s₁
    apply h.bind (h.condition s₁)
    intro c s₂
    apply h.optional rfl
    intro s₃
    exact h.andReturn (blockUpTo h fuel s₃)

theorem blockUpTo (h : Tandem mode mode' J) :
    ∀ (fuel : Nat) (s : State), J (Parser.blockUpTo mode fuel) (Parser.blockUpTo mode' fuel) s
  | 0, s => h.fail s nofun
  | fuel + 1, s => by
    apply h.check rfl
    intro opening
    cases opening with
    | true => exact h.advance (bracedUpTo h fuel)
    | false => exact h.andReturn (statementUpTo h fuel s)

theorem bracedUpTo (h : Tandem mode mode' J) :
    ∀ (fuel : Nat) (s : State), J (Parser.bracedUpTo mode fuel) (Parser.bracedUpTo mode' fuel) s
  | 0, s => h.fail s nofun
  | fuel + 1, s => by
    apply h.check rfl
    intro closing
    cases closing with
    | true => exact h.advance (h.pure [])
    | false =>
      apply h.atEnd
      intro ended
      cases ended with
      | true => exact h.fail s nofun
      | false =>
        apply h.bind (statementUpTo h fuel s)
        intro first s₁
        exact h.andReturn (bracedUpTo h fuel s₁)

end

/-! ## Programs -/

theorem statementsUpTo (h : Tandem mode mode' J) : ∀ (fuel : Nat) (s : State),
    J (Parser.statementsUpTo mode fuel) (Parser.statementsUpTo mode' fuel) s
  | 0, s => h.pure [] s
  | fuel + 1, s => by
    apply h.atEnd
    intro ended
    cases ended with
    | true => exact h.pure [] s
    | false =>
      have hstatement : J (Parser.statement mode) (Parser.statement mode') s :=
        h.length fun n => h.statementUpTo (3 * n + 3) s
      apply h.bind hstatement
      intro first s₁
      exact h.andReturn (statementsUpTo h fuel s₁)

/-- What the steps keep holds of whole programs. -/
theorem program (h : Tandem mode mode' J) (s : State) :
    J (Parser.program mode) (Parser.program mode') s :=
  h.length fun n => h.andReturn (h.statementsUpTo (n + 1) s)

end Tandem

/-! ## Runs that take the same tokens -/

/-- A judgement on two parsers in a state that holds of each way to take a token by itself. -/
structure Congruence (mode mode' : Strictness)
    (J : ∀ {α : Type}, Parser α → Parser α → State → Prop) : Prop where
  pure {α : Type} (a : α) (s : State) : J (pure a) (pure a) s
  bind {α β : Type} {p q : Parser α} {f g : α → Parser β} {s : State} :
    J p q s → (∀ a s', J (f a) (g a) s') → J (p >>= f) (q >>= g) s
  fail {α : Type} {expected : Expectation} (s : State) :
    expected ≠ .primary → J (fail expected : Parser α) (fail expected) s
  check {β : Type} {kind : Token.Kind} {f g : Bool → Parser β} {s : State} :
    kind.isTested = true → (∀ b, J (f b) (g b) s) → J (check kind >>= f) (check kind >>= g) s
  checkValue {β : Type} {kind : Token.Kind} {value : String} {f g : Bool → Parser β} {s : State} :
    kind.isTested = true → (∀ b, J (f b) (g b) s) →
    J (checkValue kind value >>= f) (checkValue kind value >>= g) s
  /-- What comes behind does not look at the token that is taken. -/
  advance {β : Type} {p q : Parser β} {s : State} :
    (∀ s', J p q s') → J (advance >>= fun _ => p) (advance >>= fun _ => q) s
  expect {kind : Token.Kind} (s : State) :
    kind.isTested = true → J (expect kind) (expect kind) s
  expectValue {kind : Token.Kind} (value : String) (s : State) :
    kind.isTested = true → J (expectValue kind value) (expectValue kind value) s
  optional {kind : Token.Kind} (s : State) :
    kind.isTested = true → J (optional kind) (optional kind) s
  primary (s : State) : J primary primary s
  operator {β : Type} {operators : List String} {f g : Token → Parser β} {p q : Parser β}
    {s : State} : (∀ t, J (f t) (g t) s) → J p q s →
    J (do let t ← current; if t.kind = .operator ∧ t.value ∈ operators then f t else p)
      (do let t ← current; if t.kind = .operator ∧ t.value ∈ operators then g t else q) s
  statement {fuel : Nat} {s : State} : J declaration declaration s → J printing printing s →
    J (branchUpTo mode fuel) (branchUpTo mode' fuel) s →
    J (loopUpTo mode fuel) (loopUpTo mode' fuel) s → J simple simple s →
    J (statementUpTo mode (fuel + 1)) (statementUpTo mode' (fuel + 1)) s
  length {β : Type} {p q : Nat → Parser β} {s : State} : (∀ n, J (p n) (q n) s) →
    J (do p (← get).rest.length) (do q (← get).rest.length) s

namespace Congruence

variable {mode mode' : Strictness} {J : ∀ {α : Type}, Parser α → Parser α → State → Prop}

/-- Where the tokens are the same, so is what is handed on of them. -/
theorem tandem (h : Congruence mode mode' J) : Tandem mode mode' J where
  pure := h.pure
  bind := h.bind
  fail := h.fail
  check := h.check
  checkSign := h.checkValue rfl
  advance := h.advance
  expect hkind hp := h.bind (h.expect _ hkind) fun _ s' => hp s'
  expectSign hp := h.bind (h.expectValue _ _ rfl) fun _ s' => hp s'
  expectName _ _ hf := h.bind (h.expect _ rfl) fun t s' => hf t.value s'
  optional hkind hp := h.bind (h.optional _ hkind) fun _ s' => hp s'
  primary := h.primary
  operator _ _ _ hf hp := h.operator (fun t => hf t.value) hp
  statement := h.statement
  length := h.length

theorem program (h : Congruence mode mode' J) (s : State) :
    J (Parser.program mode) (Parser.program mode') s :=
  h.tandem.program s

end Congruence

end Parser

end Boli

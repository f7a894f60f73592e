import Boli.Proofs.Grammar.Meaning

/-!
# The parser accepts nothing but the grammar

Every function of the strict parser reads the text of a derivation and gives what it means. The
derivation is innermost, since a body is read up to a token that continues nothing at its end: if
an ELSE_IF or ELSE stands behind the body, no branch inside it is open. That is the invariant which
the induction carries, in the form `Closed d.endings ∨ NoElse rest`.
-/

set_option autoImplicit false

namespace Boli.Parser

open Grammar (next Terminal Sign Primary Expr Cond Stmt Block Tail Stmts Closed NoElse closed_nil)
open Text.Numeral (IsDigitRun decimal read_eq_decimal)

variable {s : State}

/-! ## Expressions and conditions -/

theorem numberOf_eq {t : Token} (h : IsDigitRun t.value) :
    numberOf t = pure (.number (decimal t.value)) := by
  rw [numberOf, read_eq_decimal h]

/-- A number token is the one place where a text could be taken and yet have no value. -/
theorem reads_number (h : (next s.rest).kind = .number) :
    Reads (do let _ ← advance; numberOf (next s.rest)) s fun e text _ =>
      ∃ p : Primary, p.Means e ∧ text = [p.token] := by
  have heof : (next s.rest).kind ≠ .eof := by rw [h]; decide
  cases hread : Text.Numeral.read (next s.rest).value with
  | ok n =>
    have hnumber : numberOf (next s.rest) = pure (.number n) := by rw [numberOf, hread]
    rw [hnumber]
    apply Reads.bind_advance h (by decide)
    intro s'
    exact Reads.pure ⟨.number ⟨_, h⟩, ⟨n, hread, rfl⟩, rfl⟩
  | error fault =>
    have hnumber : numberOf (next s.rest) = throw (.numeral fault) := by rw [numberOf, hread]
    rw [hnumber]
    constructor
    · intro e s' hrun
      cases hrun
    · intro hn
      rw [read_eq_decimal (hn _ (next_mem heof) h)] at hread
      cases hread

theorem reads_primary :
    Reads primary s fun e text _ => ∃ p : Primary, p.Means e ∧ text = [p.token] := by
  apply Reads.test (run_current s)
  split
  next h => exact reads_number h
  next h =>
    apply Reads.bind_advance h (by decide)
    intro s'
    exact Reads.pure ⟨.text ⟨_, h⟩, rfl, rfl⟩
  next h =>
    apply Reads.bind_advance h (by decide)
    intro s'
    exact Reads.pure ⟨.identifier ⟨_, h⟩, rfl, rfl⟩
  next => exact Reads.fail

theorem reads_expression :
    Reads expression s fun e text _ => ∃ d : Expr, d.Means e ∧ text = d.text := by
  refine reads_primary.bind ?_
  intro l _ s₁ _ hleft
  obtain ⟨left, hl, rfl⟩ := hleft
  apply Reads.test (run_current s₁)
  split
  next h =>
    apply Reads.bind_advance h.1 (by decide)
    intro s₂
    refine reads_primary.bind ?_
    intro r _ s₃ _ hright
    obtain ⟨right, hr, rfl⟩ := hright
    exact Reads.pure ⟨.operation left ⟨_, h⟩ right, ⟨l, r, hl, hr, rfl⟩, rfl⟩
  next => exact Reads.pure ⟨.primary left, hl, rfl⟩

theorem reads_condition :
    Reads condition s fun c text _ => ∃ d : Cond, d.Means c ∧ text = d.text := by
  refine reads_primary.bind ?_
  intro l _ s₁ _ hleft
  obtain ⟨left, hl, rfl⟩ := hleft
  apply Reads.test (run_current s₁)
  split
  next h =>
    apply Reads.bind_advance h.1 (by decide)
    intro s₂
    refine reads_primary.bind ?_
    intro r _ s₃ _ hright
    obtain ⟨right, hr, rfl⟩ := hright
    exact Reads.pure ⟨⟨left, ⟨_, h⟩, right⟩, ⟨l, r, hl, hr, rfl⟩, rfl⟩
  next => exact Reads.fail

/-! ## Statements -/

/-- The text of a statement is read, for what it means. -/
def ReadsStmt (a : Statement) (text rest : List Token) : Prop :=
  ∃ d : Stmt, d.Means a ∧ text = d.text ∧ d.Innermost ∧ (Closed d.endings ∨ NoElse rest)

theorem reads_declaration : Reads declaration s ReadsStmt := by
  apply Reads.bind_expect (by decide)
  intro start s₁
  apply Reads.bind_expect (by decide)
  intro name s₂
  apply Reads.bind_expectValue
  intro sign s₃
  refine reads_expression.bind ?_
  intro e _ s₄ _ hvalue
  obtain ⟨value, he, rfl⟩ := hvalue
  apply Reads.bind_optional (by decide)
  intro stop s₅
  refine Reads.pure ⟨.declare start name sign value stop, ⟨e, he, rfl⟩, ?_, trivial, .inl closed_nil⟩
  simp only [Stmt.text, List.append_nil]

theorem reads_printing : Reads printing s ReadsStmt := by
  apply Reads.bind_expect (by decide)
  intro start s₁
  refine reads_expression.bind ?_
  intro e _ s₂ _ hvalue
  obtain ⟨value, he, rfl⟩ := hvalue
  apply Reads.bind_optional (by decide)
  intro stop s₃
  refine Reads.pure ⟨.print start value stop, ⟨e, he, rfl⟩, ?_, trivial, .inl closed_nil⟩
  simp only [Stmt.text, List.append_nil]

theorem reads_simple : Reads simple s ReadsStmt := by
  apply Reads.bind_expect (by decide)
  intro name s₁
  apply Reads.test (run_checkValue .operator assignOperator s₁)
  split
  next h =>
    rw [Bool.and_eq_true, decide_eq_true_eq, decide_eq_true_eq] at h
    apply Reads.bind_advance h.1 (by decide)
    intro s₂
    refine reads_expression.bind ?_
    intro e _ s₃ _ hvalue
    obtain ⟨value, he, rfl⟩ := hvalue
    apply Reads.bind_optional (by decide)
    intro stop s₄
    refine Reads.pure ⟨.assign name ⟨_, h.1, List.mem_singleton.2 h.2⟩ value stop, ⟨e, he, rfl⟩, ?_,
      trivial, .inl closed_nil⟩
    simp only [Stmt.text, List.append_nil]
  next =>
    apply Reads.bind_optional (by decide)
    intro stop s₂
    refine Reads.pure ⟨.evaluate name stop, rfl, ?_, trivial, .inl closed_nil⟩
    simp only [Stmt.text, List.append_nil]

/-- A statement is read, and not passed over. -/
def ReadsSome (o : Option Statement) (text rest : List Token) : Prop :=
  ∃ a, o = some a ∧ ReadsStmt a text rest

theorem reads_some {p : Parser Statement} (hp : Reads p s ReadsStmt) :
    Reads (do return some (← p)) s ReadsSome :=
  hp.andReturn fun a _ _ ha => ⟨a, rfl, ha⟩

/-- The text of a block is read, for what it means. -/
def ReadsBlock (ss : List Statement) (text rest : List Token) : Prop :=
  ∃ d : Block, d.Means ss ∧ text = d.text ∧ d.Innermost ∧ (Closed d.endings ∨ NoElse rest)

/-- The text of a tail is read, for what it means, behind a body in which `before` are the branches
that end with it. -/
def ReadsTail (before : List Stmt) (o : Otherwise) (text rest : List Token) : Prop :=
  ∃ d : Tail, d.Means o ∧ text = d.text ∧ d.Innermost before ∧ (d.AllClosed before ∨ NoElse rest)

/-- The text of a sequence of statements is read, for what it means, with the brace that ends it. -/
def ReadsBraced (ss : List Statement) (text _rest : List Token) : Prop :=
  ∃ (d : Stmts) (closing : Terminal .closeBrace), d.Means ss ∧ text = d.text ++ [closing.val] ∧
    d.Innermost

/-! The induction is on the fuel, which every call hands on reduced. What happens when it runs out
is of no concern here, since then nothing is accepted. -/

mutual

theorem reads_statement : ∀ (fuel : Nat) (s : State),
    Reads (statementUpTo .strict fuel) s ReadsSome
  | 0, _ => Reads.fail
  | fuel + 1, s => by
    apply Reads.test (run_current s)
    split
    · exact reads_some reads_declaration
    · exact reads_some reads_printing
    · exact reads_some (reads_branch fuel s)
    · exact reads_some (reads_loop fuel s)
    · exact reads_some reads_simple
    · exact Reads.fail
    · exact Reads.fail

theorem reads_branch : ∀ (fuel : Nat) (s : State), Reads (branchUpTo .strict fuel) s ReadsStmt
  | 0, _ => Reads.fail
  | fuel + 1, s => by
    apply Reads.bind_expect (by decide)
    intro start s₁
    refine reads_condition.bind ?_
    intro c' _ s₂ _ hcond
    obtain ⟨c, hc, rfl⟩ := hcond
    refine (reads_block fuel s₂).bind ?_
    intro ss _ s₃ _ hblock
    obtain ⟨body, hss, rfl, hbody, hfollow⟩ := hblock
    refine (reads_otherwise fuel s₃ body.endings hfollow).bind ?_
    intro o _ s₄ _ htail
    obtain ⟨rest, ho, rfl, hrest, hclosed⟩ := htail
    refine Reads.pure ⟨.branch start c body rest, ⟨c', ss, o, hc, hss, ho, rfl⟩, ?_, ⟨hbody, hrest⟩, ?_⟩
    · simp only [Stmt.text, List.append_nil]
    · rwa [Stmt.closed_branch]

theorem reads_otherwise : ∀ (fuel : Nat) (s : State) (before : List Stmt),
    Closed before ∨ NoElse s.rest → Reads (otherwiseUpTo .strict fuel) s (ReadsTail before)
  | 0, _, _, _ => Reads.fail
  | fuel + 1, s, before, hfollow => by
    apply Reads.test (run_check (.keyword .elseIf) s)
    split
    next h =>
      rw [decide_eq_true_eq] at h
      have hbefore : Closed before := hfollow.resolve_right fun hno => hno.1 h
      apply Reads.bind_advance h (by decide)
      intro s₁
      refine reads_condition.bind ?_
      intro c' _ s₂ _ hcond
      obtain ⟨c, hc, rfl⟩ := hcond
      refine (reads_block fuel s₂).bind ?_
      intro ss _ s₃ _ hblock
      obtain ⟨body, hss, rfl, hbody, hfollow'⟩ := hblock
      refine (reads_otherwise fuel s₃ body.endings hfollow').bind ?_
      intro o _ s₄ _ htail
      obtain ⟨rest, ho, rfl, hrest, hclosed⟩ := htail
      refine Reads.pure ⟨.elseIf ⟨_, h⟩ c body rest, ⟨c', ss, o, hc, hss, ho, rfl⟩, ?_,
        ⟨hbefore, hbody, hrest⟩, hclosed⟩
      simp only [Tail.text, List.append_nil]
    next hno₁ =>
      rw [decide_eq_true_eq] at hno₁
      apply Reads.test (run_check (.keyword .elseStart) s)
      split
      next h =>
        rw [decide_eq_true_eq] at h
        have hbefore : Closed before := hfollow.resolve_right fun hno => hno.2 h
        apply Reads.bind_advance h (by decide)
        intro s₁
        refine (reads_block fuel s₁).bind ?_
        intro ss _ s₂ _ hblock
        obtain ⟨body, hss, rfl, hbody, hclosed⟩ := hblock
        refine Reads.pure ⟨.last ⟨_, h⟩ body, ⟨ss, hss, rfl⟩, ?_, ⟨hbefore, hbody⟩, ?_⟩
        · simp only [Tail.text, List.append_nil]
        · exact hclosed.imp_left fun hb => ⟨rfl, hb⟩
      next hno₂ =>
        rw [decide_eq_true_eq] at hno₂
        exact Reads.pure ⟨.nothing, rfl, rfl, trivial, .inr ⟨hno₁, hno₂⟩⟩

theorem reads_loop : ∀ (fuel : Nat) (s : State), Reads (loopUpTo .strict fuel) s ReadsStmt
  | 0, _ => Reads.fail
  | fuel + 1, s => by
    apply Reads.bind_expect (by decide)
    intro start s₁
    refine reads_condition.bind ?_
    intro c' _ s₂ _ hcond
    obtain ⟨c, hc, rfl⟩ := hcond
    apply Reads.bind_optional (by decide)
    intro marker s₃
    refine (reads_block fuel s₃).bind ?_
    intro ss _ s₄ _ hblock
    obtain ⟨body, hss, rfl, hbody, hfollow⟩ := hblock
    refine Reads.pure ⟨.loop start c marker body, ⟨c', ss, hc, hss, rfl⟩, ?_, hbody, hfollow⟩
    simp only [Stmt.text, List.append_nil]

theorem reads_block : ∀ (fuel : Nat) (s : State), Reads (blockUpTo .strict fuel) s ReadsBlock
  | 0, _ => Reads.fail
  | fuel + 1, s => by
    apply Reads.test (run_check .openBrace s)
    split
    next h =>
      rw [decide_eq_true_eq] at h
      apply Reads.bind_advance h (by decide)
      intro s₁
      exact (reads_braced fuel s₁).imp fun ss text rest ⟨d, closing, hss, htext, hd⟩ =>
        ⟨.braced ⟨_, h⟩ d closing, hss, congrArg _ htext, hd, .inl closed_nil⟩
    next =>
      refine (reads_statement fuel s).bind ?_
      intro _ _ s₁ _ hfirst
      obtain ⟨a, rfl, d, ha, rfl, hd, hfollow⟩ := hfirst
      exact Reads.pure ⟨.single d, ⟨a, ha, rfl⟩, List.append_nil _, hd, hfollow⟩

theorem reads_braced : ∀ (fuel : Nat) (s : State), Reads (bracedUpTo .strict fuel) s ReadsBraced
  | 0, _ => Reads.fail
  | fuel + 1, s => by
    apply Reads.test (run_check .closeBrace s)
    split
    next h =>
      rw [decide_eq_true_eq] at h
      apply Reads.bind_advance h (by decide)
      intro s₁
      exact Reads.pure ⟨.nil, ⟨_, h⟩, rfl, rfl, trivial⟩
    next =>
      apply Reads.test (run_atEnd s)
      split
      · exact Reads.fail
      · refine (reads_statement fuel s).bind ?_
        intro _ _ s₁ _ hfirst
        obtain ⟨a, rfl, d, ha, rfl, hd, -⟩ := hfirst
        refine (reads_braced fuel s₁).bind ?_
        intro ss _ s₂ _ hmore
        obtain ⟨ds, closing, hss, rfl, hds⟩ := hmore
        refine Reads.pure ⟨.cons d ds, closing, ⟨a, ss, ha, hss, rfl⟩, ?_, hd, hds⟩
        simp only [Stmts.text, List.append_nil, List.append_assoc]

end

/-! ## Programs -/

/-- Statements are read up to the end of the input, given fuel for all tokens that are left. -/
theorem reads_statements : ∀ (fuel : Nat) (s : State), s.rest.length < fuel →
    Reads (statementsUpTo .strict fuel) s fun ss text rest =>
      ∃ d : Stmts, d.Means ss ∧ text = d.text ∧ d.Innermost ∧ (next rest).kind = .eof
  | 0, _, h => absurd h (Nat.not_lt_zero _)
  | fuel + 1, s, hfuel => by
    apply Reads.test (run_atEnd s)
    split
    next h =>
      rw [decide_eq_true_eq] at h
      exact Reads.pure ⟨.nil, rfl, rfl, trivial, h⟩
    next =>
      refine (Reads.test (run_get s) (reads_statement _ s)).bind ?_
      intro _ _ s₁ hread hfirst
      obtain ⟨a, rfl, d, ha, rfl, hd, -⟩ := hfirst
      -- the statement has taken a token, so that less is left than there is fuel
      have hlength : s₁.rest.length < fuel := by
        have hpos := d.length_text_pos
        have hrest := congrArg List.length hread.rest_eq
        rw [List.length_append] at hrest
        omega
      refine (reads_statements fuel s₁ hlength).bind ?_
      intro ss _ s₂ _ hmore
      obtain ⟨ds, hss, rfl, hds, heof⟩ := hmore
      refine Reads.pure ⟨.cons d ds, ⟨a, ss, ha, hss, rfl⟩, ?_, ⟨hd, hds⟩, heof⟩
      simp only [Stmts.text, List.append_nil]

theorem reads_program (s : State) :
    Reads (program .strict) s fun p text rest =>
      ∃ (d : Stmts) (ss : List Statement), p = .statements ss ∧ d.Means ss ∧ text = d.text ∧
        d.Innermost ∧ (next rest).kind = .eof := by
  apply Reads.test (run_get s)
  refine (reads_statements _ s (Nat.lt_succ_self _)).bind ?_
  intro ss _ s₁ _ hread
  obtain ⟨d, hss, rfl, hd, heof⟩ := hread
  exact Reads.pure ⟨d, ss, rfl, hss, List.append_nil _, hd, heof⟩

end Boli.Parser
